import ActionBook.Store.Basic

/-!
# `Store.Repository`: a store that may not answer

A repository is a store that is reached by calls. Every call may fail for reasons of its own; which
of the upcoming calls do is part of the state, so that an operation can be followed through every
failure. A call that fails leaves the store as it was.
-/

namespace ActionBook

/-- The kinds of calls to a repository. -/
inductive StoreCall where
  | findById
  | findByName
  | findByNames
  | findAll
  | save
  | delete
deriving DecidableEq, Repr

/-- For every kind of call, the reasons why the next ones fail, in order; those without a reason,
and all after the last one listed, are answered. -/
def Outages := StoreCall → List (Option String)

namespace Outages

/-- All calls are answered. -/
def none : Outages := fun _ => []

/-- The next call of a kind fails for the given reason. Another reason it would have failed for is
forgotten. -/
def arm (o : Outages) (call : StoreCall) (reason : String) : Outages :=
  fun c => if c = call then some reason :: (o c).tail else o c

/-- What remains after a call of a kind. -/
def pass (o : Outages) (call : StoreCall) : Outages :=
  fun c => if c = call then (o c).tail else o c

/-- Why the next call of a kind fails, if it does. -/
def next? (o : Outages) (call : StoreCall) : Option String := (o call).head?.join

end Outages

/-- A store with what becomes of the calls to it. -/
structure Repository where
  store : Store := .empty
  outages : Outages := .none

namespace Repository

/-- Makes a call: it fails for the reason that is next, or does what it is for. -/
def answer {α : Type} (call : StoreCall) (act : EStateM ActionError Store α) :
    EStateM ActionError Repository α := fun r =>
  let outages := r.outages.pass call
  match r.outages.next? call with
  | some reason => .error (.storage reason) { r with outages }
  | none =>
    match act r.store with
    | .ok x store => .ok x ⟨store, outages⟩
    | .error e store => .error e ⟨store, outages⟩

/-- Makes a call that reads. -/
def read {α : Type} (call : StoreCall) (f : Store → α) : EStateM ActionError Repository α :=
  answer call fun store => .ok (f store) store

/-- The action kept under an id. -/
def findById (id : ActionId) : EStateM ActionError Repository (Option Action) :=
  read .findById (·.find? id)

/-- An action with a name. -/
def findByName (name : String) : EStateM ActionError Repository (Option Action) :=
  read .findByName (·.findNamed? name)

/-- The actions with one of the given names, in the order of their names. -/
def findByNames (names : TextSet) : EStateM ActionError Repository (List Action) :=
  read .findByNames (·.allNamed names)

/-- All actions, in the order of their names. -/
def findAll : EStateM ActionError Repository (List Action) := read .findAll Store.all

/-- Keeps an action under its id, which it has to have, and gives it back. -/
def save (a : Action) : EStateM ActionError Repository Action :=
  answer .save fun store =>
    match a.id with
    | some id => .ok a (store.put id a)
    | none => .error (.storage "cannot store an action without an id") store

/-- Removes what is kept under an id and gives it back. -/
def delete (id : ActionId) : EStateM ActionError Repository (Option Action) :=
  answer .delete fun store => .ok (store.find? id) (store.erase id)

end Repository

end ActionBook
