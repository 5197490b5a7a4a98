import ActionBook.Catalog
import ActionBook.Proofs.Service.Atomicity
import ActionBook.Proofs.Service.Saving
import Mathlib.Logic.Relation

/-!
# `Service.History`: the states that requests lead to

A history is a list of requests to a service, each with the calls to the repository that fail during
it. For every change to the store, and for nothing else, there is a receipt: an action that a request
has given back as stored or as removed. The receipts of a history make up its journal, and each is for
a transaction, which says all that the change has done (`trace_history`). So what every transaction
keeps is kept along every history (`reaches_history`).
-/

namespace ActionBook

/-- The ledger with other calls that will fail. -/
def Ledger.withOutages (ledger : Ledger) (outages : Outages) : Ledger :=
  { ledger with repository := { ledger.repository with outages } }

theorem Ledger.alike_withOutages (ledger : Ledger) (outages : Outages) :
    ledger.Alike (ledger.withOutages outages) := ⟨rfl, rfl, rfl⟩

namespace Service

open Operation
open Relation (ReflTransGen)

variable {World : Type}

/-! ## Requests -/

/-- What a service can be asked for. -/
inductive Request (World : Type) where
  | save (a : Action)
  | create (a : Action)
  | update (id : ActionId) (a : Action)
  | delete (id : ActionId)
  /-- Store actions one by one, and only as many as are asked for. -/
  | saveAll (actions : List Action) (polls : Option Nat)
  /-- Store the actions of a catalogue in that way, given what is found at its path. -/
  | load (path : String) (found : Except FileFault Text.Octets) (polls : Option Nat)
  | run (r : RunRequest) (world : World)
  | getById (id : ActionId)
  | getAll
  | findByName (name : String)
  | findDistinct (names : TextSet)

/-- The ledger after a request, whether it has failed or not. -/
def perform (s : Service World) (ledger : Ledger) : Request World → Ledger
  | .save a => (s.save a).after ledger
  | .create a => (s.create a).after ledger
  | .update id a => (s.update id a).after ledger
  | .delete id => (delete id).after ledger
  | .saveAll actions polls => (s.saveAll actions polls ledger).2
  | .load path found polls =>
    match Catalog.ofFile path found with
    | .error _ => ledger
    | .ok catalog => (s.saveAll catalog.actions polls ledger).2
  | .run r world => (s.run r world).after ledger
  | .getById id => (getById id).after ledger
  | .getAll => getAll.after ledger
  | .findByName name => (findByName name).after ledger
  | .findDistinct names => (findDistinct names).after ledger

/-- A request, and the calls to the repository that fail from then on. -/
structure Step (World : Type) where
  outages : Outages := .none
  request : Request World

/-- The ledger after a step. -/
def step (s : Service World) (ledger : Ledger) (t : Step World) : Ledger :=
  s.perform (ledger.withOutages t.outages) t.request

/-- The ledger that some steps lead to from an empty store. -/
def history (s : Service World) (steps : List (Step World)) : Ledger := steps.foldl s.step {}

/-! ## Receipts -/

/-- What tells of a change to the store. -/
inductive Receipt where
  /-- An action has been stored, under the id that it was to have, if there was one: the action as it
  was given, and as it came back. -/
  | stored (target : Option ActionId) (given saved : Action)
  /-- What was kept under an id has been removed and came back. -/
  | removed (id : ActionId) (a : Action)

/-- The receipt for an action that was to be stored, unless this has failed. -/
def Receipt.ofSaving (target : Option ActionId) (given : Action) :
    Except ActionError Action → List Receipt
  | .ok saved => [.stored target given saved]
  | .error _ => []

/-- The receipts for actions that were to be stored one by one, up to the last that was tried. -/
def Receipt.ofSavingAll (actions : List Action) (items : List (Except ActionError Action)) :
    List Receipt :=
  (actions.zip items).flatMap fun (a, item) => ofSaving a.id a item

/-- The receipt for what was to be removed, unless this has failed. -/
def Receipt.ofRemoving (id : ActionId) : Except ActionError Action → List Receipt
  | .ok a => [.removed id a]
  | .error _ => []

open Receipt (ofSaving ofSavingAll ofRemoving)

/-- The receipts that a request gives. -/
def receipts (s : Service World) (ledger : Ledger) : Request World → List Receipt
  | .save a => ofSaving a.id a ((s.save a).outcome ledger)
  | .create a => ofSaving none a ((s.create a).outcome ledger)
  | .update id a => ofSaving (some id) a ((s.update id a).outcome ledger)
  | .delete id => ofRemoving id ((delete id).outcome ledger)
  | .saveAll actions polls => ofSavingAll actions (s.saveAll actions polls ledger).1
  | .load path found polls =>
    match Catalog.ofFile path found with
    | .error _ => []
    | .ok catalog => ofSavingAll catalog.actions (s.saveAll catalog.actions polls ledger).1
  | .run _ _ | .getById _ | .getAll | .findByName _ | .findDistinct _ => []

/-- The receipts of some steps from a ledger on, in order. -/
def journalFrom (s : Service World) (ledger : Ledger) : List (Step World) → List Receipt
  | [] => []
  | t :: steps =>
    s.receipts (ledger.withOutages t.outages) t.request ++ s.journalFrom (s.step ledger t) steps

/-- The receipts of a history. -/
def journal (s : Service World) (steps : List (Step World)) : List Receipt := s.journalFrom {} steps

/-! ## Changes -/

/-- The ways in which a ledger changes. -/
inductive Changed (s : Service World) (ledger final : Ledger) : Prop where
  /-- Only the calls that will fail are others. -/
  | alike (h : ledger.Alike final)
  /-- An action has been stored, against which nothing spoke. -/
  | wrote {a saved : Action} {mustReplace : Bool} (accepted : Accepted ledger.store a mustReplace)
      (h : s.Wrote ledger a saved final)
  /-- What was stored under an id is gone. -/
  | erased {id : ActionId} (store : final.store = ledger.store.erase id)
      (issued : final.issued = ledger.issued) (written : final.written = ledger.written)

/-- The change that a receipt is for. -/
inductive Transaction (s : Service World) (ledger : Ledger) : Receipt → Ledger → Prop where
  /-- What has been stored has the content of what was given, and nothing spoke against it. -/
  | stored {given a saved : Action} {mustReplace : Bool} {final : Ledger}
      (content : given.SameContent a) (accepted : Accepted ledger.store a mustReplace)
      (wrote : s.Wrote ledger a saved final) : Transaction s ledger (.stored a.id given saved) final
  /-- What has been removed was there. -/
  | removed {id : ActionId} {a : Action} {final : Ledger} (found : ledger.store.find? id = some a)
      (store : final.store = ledger.store.erase id) (issued : final.issued = ledger.issued)
      (written : final.written = ledger.written) : Transaction s ledger (.removed id a) final

/-- The transactions for some receipts lead from one ledger to another. -/
inductive Trace (s : Service World) : Ledger → List Receipt → Ledger → Prop where
  | alike {ledger final : Ledger} (h : ledger.Alike final) : Trace s ledger [] final
  | cons {ledger start middle final : Ledger} {r : Receipt} {receipts : List Receipt}
      (before : ledger.Alike start) (transaction : s.Transaction start r middle)
      (rest : Trace s middle receipts final) : Trace s ledger (r :: receipts) final

variable {s : Service World} {ledger start middle final : Ledger} {r : Receipt}
  {rs rs' : List Receipt}

namespace Trace

theorem single (h : s.Transaction ledger r final) : s.Trace ledger [r] final :=
  .cons (.refl ledger) h (.alike (.refl final))

theorem of_alike (h : ledger.Alike start) (trace : s.Trace start rs final) :
    s.Trace ledger rs final := by
  cases trace with
  | alike h' => exact .alike (h.trans h')
  | cons before transaction rest => exact .cons (h.trans before) transaction rest

theorem trans (trace : s.Trace ledger rs middle) (trace' : s.Trace middle rs' final) :
    s.Trace ledger (rs ++ rs') final := by
  induction trace with
  | alike h => exact trace'.of_alike h
  | cons before transaction _ ih => exact .cons before transaction (ih trace')

theorem reaches (trace : s.Trace ledger rs final) : ReflTransGen s.Changed ledger final := by
  induction trace with
  | alike h => exact .single (.alike h)
  | cons before transaction _ ih =>
    refine .head (.alike before) (.head ?_ ih)
    cases transaction with
    | stored _ accepted wrote => exact .wrote accepted wrote
    | removed _ store issued written => exact .erased store issued written

end Trace

/-! ## Requests that change the store -/

theorem trace_persist {given a : Action} (content : given.SameContent a) (mustReplace : Bool)
    (ledger : Ledger) :
    s.Trace ledger (ofSaving a.id given ((s.persist a mustReplace).outcome ledger))
      ((s.persist a mustReplace).after ledger) := by
  unfold outcome after
  cases h : s.persist a mustReplace ledger with
  | ok saved final =>
    obtain ⟨accepted, wrote⟩ := of_persist_eq_ok h
    exact .single (.stored content accepted wrote)
  | error e final => exact .alike (alike_of_persist_eq_error h)

theorem trace_save (a : Action) (ledger : Ledger) :
    s.Trace ledger (ofSaving a.id a ((s.save a).outcome ledger)) ((s.save a).after ledger) :=
  trace_persist ⟨rfl, rfl, rfl, rfl⟩ false ledger

theorem trace_create (a : Action) (ledger : Ledger) :
    s.Trace ledger (ofSaving none a ((s.create a).outcome ledger))
      ((s.create a).after ledger) := by
  unfold create
  cases hid : a.id with
  | some id => exact .alike (ReadsOnly.throw _ ledger)
  | none =>
    have trace := trace_save (s := s) a ledger
    rwa [hid] at trace

theorem trace_update (id : ActionId) (a : Action) (ledger : Ledger) :
    s.Trace ledger (ofSaving (some id) a ((s.update id a).outcome ledger))
      ((s.update id a).after ledger) := by
  have content : a.SameContent { a with id := some id } := ⟨rfl, rfl, rfl, rfl⟩
  exact trace_persist content true ledger

theorem trace_delete (id : ActionId) (ledger : Ledger) :
    s.Trace ledger (ofRemoving id ((delete id).outcome ledger)) ((delete id).after ledger) := by
  unfold outcome after
  cases h : delete id ledger with
  | ok a final =>
    obtain ⟨found, rfl⟩ := of_delete_eq_ok h
    exact .single (.removed found rfl rfl rfl)
  | error e final => exact .alike (alike_of_delete_eq_error h)

/-- Storing one by one gives the receipts for the actions whose turn comes. -/
theorem trace_afterAll (actions : List Action) (n : Nat) (ledger : Ledger) :
    s.Trace ledger (ofSavingAll actions (s.outcomes (actions.take n) ledger))
      (s.afterAll (actions.take n) ledger) := by
  -- one action gives its receipt, and the others are stored from the ledger which that leaves
  induction actions generalizing n ledger with
  | nil => simpa [outcomes, afterAll, ofSavingAll] using Trace.alike (.refl ledger)
  | cons a rest ih =>
    cases n with
    | zero => simpa [outcomes, afterAll, ofSavingAll] using Trace.alike (.refl ledger)
    | succ n => exact (trace_save a ledger).trans (ih n _)

theorem trace_saveAll (actions : List Action) (polls : Option Nat) (ledger : Ledger) :
    s.Trace ledger (ofSavingAll actions (s.saveAll actions polls ledger).1)
      (s.saveAll actions polls ledger).2 := by
  rw [saveAll_eq]
  exact trace_afterAll actions _ ledger

/-! ## Histories -/

/-- What every request does to the ledger is what it gives receipts for. -/
theorem trace_perform (s : Service World) (ledger : Ledger) (request : Request World) :
    s.Trace ledger (s.receipts ledger request) (s.perform ledger request) := by
  cases request with
  | save a => exact trace_save a ledger
  | create a => exact trace_create a ledger
  | update id a => exact trace_update id a ledger
  | delete id => exact trace_delete id ledger
  | saveAll actions polls => exact trace_saveAll actions polls ledger
  | load path found polls =>
    rw [receipts, perform]
    cases Catalog.ofFile path found with
    | error fault => exact .alike (.refl ledger)
    | ok catalog => exact trace_saveAll catalog.actions polls ledger
  | run r world => exact .alike (readsOnly_run s r world ledger)
  | getById id => exact .alike (readsOnly_getById id ledger)
  | getAll => exact .alike (readsOnly_getAll ledger)
  | findByName name => exact .alike (readsOnly_findByName name ledger)
  | findDistinct names => exact .alike (readsOnly_findDistinct names ledger)

theorem trace_step (s : Service World) (ledger : Ledger) (t : Step World) :
    s.Trace ledger (s.receipts (ledger.withOutages t.outages) t.request) (s.step ledger t) :=
  (trace_perform s _ t.request).of_alike (ledger.alike_withOutages t.outages)

theorem trace_foldl (s : Service World) (ledger : Ledger) (steps : List (Step World)) :
    s.Trace ledger (s.journalFrom ledger steps) (steps.foldl s.step ledger) := by
  induction steps generalizing ledger with
  | nil => exact .alike (.refl ledger)
  | cons t steps ih => exact (trace_step s ledger t).trans (ih _)

/-- What every history does to the ledger is what its journal says. -/
theorem trace_history (s : Service World) (steps : List (Step World)) :
    s.Trace {} (s.journal steps) (s.history steps) :=
  trace_foldl s {} steps

/-- Every history leads along changes. -/
theorem reaches_history (steps : List (Step World)) :
    ReflTransGen s.Changed {} (s.history steps) :=
  (trace_history s steps).reaches

/-! ## A small history -/

/-- A service whose only plugin answers with the path that it was asked for, and counts. -/
def echoService : Service Nat where
  plugins := Registry.register {} "echo" fun _ template calls =>
    ({ outcome := .ok
        { status := "200", headers := .null, body := .str template.path, isSuccess := true } },
      calls + 1)
  ids _ := ⟨"1"⟩
  clock _ := ⟨⟨2024, 2, 29, by decide⟩, 12, 0, 0, 0, by decide⟩

/-- An action for that plugin that asks for a value. -/
def echoAction : Action where
  name := "echo user"
  plugin := "echo"
  datasource := some { name := "local", url := "http://localhost" }
  template := { path := "/users/{{ user }}" }

/-- The action has been stored, and that is all. -/
def echoLedger : Ledger := echoService.history [{ request := .save echoAction }]

end Service

end ActionBook
