import ActionBook.Service.Basic

/-!
# `Service.Writing`: operations that change the store

All ways to store an action go through `Service.persist`: its checks come first and in order, then
the action gets its id, its times and its derived fields, and only the last step writes. So an
operation that fails has changed nothing.
-/

namespace ActionBook.Service

open Operation

variable {World : Type}

/-! ## Storing -/

/-- Refuses a blank name. -/
def checkName (a : Action) : Operation Unit :=
  if Text.isBlankText a.name then throw (.invalidParameter "action name must not be empty")
  else pure ()

/-- What is stored under the id of an action. -/
def findPrevious (a : Action) : Operation (Option Action) :=
  match a.id with
  | some id => ofCall (Repository.findById id)
  | none => pure none

/-- Refuses an action that is to replace another where there is none. -/
def checkPrevious (a : Action) (mustReplace : Bool) (previous : Option Action) : Operation Unit :=
  if mustReplace && previous.isNone then
    match a.id with
    | some id => throw (.unknownId id)
    | none => throw (.invalidParameter "an update needs an id")
  else pure ()

/-- Refuses a name that an action with another id has. -/
def checkUnique (a : Action) : Operation Unit := do
  match ← ofCall (Repository.findByName a.name) with
  | some other => if other.id = a.id then pure () else throw (.duplicateName a.name)
  | none => pure ()

/-- The action with its id, times and derived fields. What replaces another action keeps the time at
which that one was created. -/
def completed (s : Service World) (ledger : Ledger) (previous : Option Action) (a : Action) :
    Action :=
  let now := s.clock ledger.written
  let a :=
    match previous with
    | some p => { a with createdAt := p.createdAt }
    | none => { a with id := some (a.id.getD (s.ids ledger.issued)), createdAt := some now }
  { a with updatedAt := some now }.refreshed

/-- Counts a write that has succeeded, and the id given in it, if the action came without one. -/
def count (a : Action) (ledger : Ledger) : Ledger :=
  { ledger with
    issued := if a.id.isNone then ledger.issued + 1 else ledger.issued
    written := ledger.written + 1 }

/-- Stores an action, in place of the one with its id if there is one. -/
def persist (s : Service World) (a : Action) (mustReplace : Bool) : Operation Action := do
  checkName a
  let previous ← findPrevious a
  checkPrevious a mustReplace previous
  checkUnique a
  let saved ← ofCall (Repository.save (s.completed (← get) previous a))
  modify (count a)
  return saved

/-! ## Operations -/

/-- Stores an action, new or not. -/
def save (s : Service World) (a : Action) : Operation Action := s.persist a false

/-- Stores a new action, which must not have an id yet. -/
def create (s : Service World) (a : Action) : Operation Action :=
  if a.id.isSome then throw (.invalidParameter "a new action must not carry an id")
  else s.persist a false

/-- Replaces the action stored under an id; the id in the new one does not matter. -/
def update (s : Service World) (id : ActionId) (a : Action) : Operation Action :=
  s.persist { a with id := some id } true

/-- Removes the action stored under an id and gives it back. -/
def delete (id : ActionId) : Operation Action := do
  orFail (.unknownId id) (← ofCall (Repository.delete id))

/-! ## Storing many -/

/-- Actions that are being stored one by one. -/
structure Saving where
  remaining : List Action
  /-- Whether storing one of them has failed; then no more are stored. -/
  failed : Bool := false

/-- Stores the next action, and gives what came of it and what is left to do; nothing, if there are
no more. -/
def Saving.next (s : Service World) (p : Saving) (ledger : Ledger) :
    Option (Except ActionError Action × Saving) × Ledger :=
  match p.failed, p.remaining with
  | false, a :: remaining =>
    match s.save a ledger with
    | .ok saved ledger => (some (.ok saved, ⟨remaining, false⟩), ledger)
    | .error e ledger => (some (.error e, ⟨remaining, true⟩), ledger)
  | _, _ => (none, ledger)

/-- Asks for up to `polls` of the next actions to be stored, and gives what came of them. -/
def Saving.take (s : Service World) (p : Saving) (ledger : Ledger) :
    (polls : Nat) → List (Except ActionError Action) × Ledger
  | 0 => ([], ledger)
  | polls + 1 =>
    match p.next s ledger with
    | (none, ledger) => ([], ledger)
    | (some (item, p), ledger) =>
      let (items, ledger) := take s p ledger polls
      (item :: items, ledger)

/-- Stores actions in order up to the first failure, and gives what came of them. Only as many as
are asked for are stored, all of them if no number is given. -/
def saveAll (s : Service World) (actions : List Action) (polls : Option Nat) (ledger : Ledger) :
    List (Except ActionError Action) × Ledger :=
  Saving.take s ⟨actions, false⟩ ledger (polls.getD actions.length)

end ActionBook.Service
