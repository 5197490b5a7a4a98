import ActionBook.Proofs.Service.Operation
import ActionBook.Service.Writing
import Mathlib.Data.List.TakeWhile

/-!
# `Service.Saving`: storing many is storing one by one

Polling `Service.saveAll` is compared with storing one action after the other by hand: what comes of
each (`outcomes`) and where this leads (`afterAll`). The stream is the start of that, up to the first
failure or the last poll, whichever comes first (`take_eq`).
-/

namespace ActionBook.Service

open Operation

variable {World : Type} {s : Service World} {ledger middle : Ledger} {a saved : Action}
  {actions : List Action} {e : ActionError}

/-! ## One by one -/

/-- What comes of storing actions one by one, no matter whether one of them fails. -/
def outcomes (s : Service World) : List Action → Ledger → List (Except ActionError Action)
  | [], _ => []
  | a :: rest, ledger => (s.save a).outcome ledger :: s.outcomes rest ((s.save a).after ledger)

/-- The ledger after storing actions one by one. -/
def afterAll (s : Service World) (actions : List Action) (ledger : Ledger) : Ledger :=
  actions.foldl (fun ledger a => (s.save a).after ledger) ledger

/-- The place of the first action that cannot be stored when its turn comes; the number of actions, if
there is no such action. -/
def firstFailure (s : Service World) (actions : List Action) (ledger : Ledger) : Nat :=
  (s.outcomes actions ledger).findIdx fun item => !item.isOk

theorem length_outcomes (s : Service World) (actions : List Action) (ledger : Ledger) :
    (s.outcomes actions ledger).length = actions.length := by
  induction actions generalizing ledger with
  | nil => rfl
  | cons a rest ih => rw [outcomes, List.length_cons, ih, List.length_cons]

/-- What comes of the first actions does not depend on those after them. -/
theorem outcomes_take (s : Service World) (actions : List Action) (ledger : Ledger) (n : Nat) :
    s.outcomes (actions.take n) ledger = (s.outcomes actions ledger).take n := by
  induction actions generalizing ledger n with
  | nil => simp [outcomes]
  | cons a rest ih =>
    cases n with
    | zero => rfl
    | succ n => rw [List.take_succ_cons, outcomes, outcomes, List.take_succ_cons, ih]

theorem isOk_of_mem_take_firstFailure {item : Except ActionError Action}
    (h : item ∈ (s.outcomes actions ledger).take (s.firstFailure actions ledger)) :
    item.isOk = true := by
  rw [firstFailure, ← List.takeWhile_eq_take_findIdx_not] at h
  exact List.mem_takeWhile_imp h

/-! ## How far the stream goes -/

/-- How many actions are tried if there is no end to the polls. -/
def tried (s : Service World) (actions : List Action) (ledger : Ledger) : Nat :=
  min actions.length (s.firstFailure actions ledger + 1)

theorem tried_cons_of_ok {rest : List Action} (h : s.save a ledger = .ok saved middle) :
    s.tried (a :: rest) ledger = s.tried rest middle + 1 := by
  have hfirst : s.firstFailure (a :: rest) ledger = s.firstFailure rest middle + 1 := by
    unfold firstFailure
    rw [outcomes, List.findIdx_cons, outcome, after, h]
    rfl
  rw [tried, tried, hfirst, List.length_cons]
  omega

theorem tried_cons_of_error {rest : List Action} (h : s.save a ledger = .error e middle) :
    s.tried (a :: rest) ledger = 1 := by
  have hfirst : s.firstFailure (a :: rest) ledger = 0 := by
    unfold firstFailure
    rw [outcomes, List.findIdx_cons, outcome, h]
    rfl
  rw [tried, hfirst, List.length_cons]
  omega

/-- After a failure nothing more comes of polling. -/
theorem take_of_failed (s : Service World) (actions : List Action) (ledger : Ledger) (polls : Nat) :
    Saving.take s ⟨actions, true⟩ ledger polls = ([], ledger) := by
  cases polls with
  | zero => rfl
  | succ polls => rfl

/-- Polling gives what comes of the first actions one by one: of as many as polls, but none after the
first that fails. -/
theorem take_eq (s : Service World) (actions : List Action) (ledger : Ledger) (polls : Nat) :
    Saving.take s ⟨actions, false⟩ ledger polls =
      (s.outcomes (actions.take (min polls (s.tried actions ledger))) ledger,
        s.afterAll (actions.take (min polls (s.tried actions ledger))) ledger) := by
  -- each poll takes one action off, and the rest is polled from the ledger which that leaves
  induction actions generalizing ledger polls with
  | nil => cases polls <;> simp [Saving.take, Saving.next, outcomes, afterAll]
  | cons a rest ih =>
    cases polls with
    | zero => simp [Saving.take, outcomes, afterAll]
    | succ polls =>
      cases h : s.save a ledger with
      | ok saved middle =>
        have hn : min (polls + 1) (s.tried (a :: rest) ledger) =
            min polls (s.tried rest middle) + 1 := by
          rw [tried_cons_of_ok h]
          omega
        have hnext : Saving.next s ⟨a :: rest, false⟩ ledger =
            (some (.ok saved, ⟨rest, false⟩), middle) := by
          simp only [Saving.next, h]
        rw [hn, List.take_succ_cons, Saving.take, hnext]
        simp only [ih, outcomes, afterAll, List.foldl_cons, outcome, after, h]
      | error e middle =>
        have hn : min (polls + 1) (s.tried (a :: rest) ledger) = 1 := by
          rw [tried_cons_of_error h]
          omega
        have hnext : Saving.next s ⟨a :: rest, false⟩ ledger =
            (some (.error e, ⟨rest, true⟩), middle) := by
          simp only [Saving.next, h]
        rw [hn, Saving.take, hnext]
        simp only [take_of_failed, List.take_succ_cons, List.take_zero, outcomes, afterAll,
          List.foldl_cons, List.foldl_nil, outcome, after, h]

/-- How many actions of a stream are tried, given how often it is polled, if there is an end to it. -/
def due (s : Service World) (actions : List Action) (polls : Option Nat) (ledger : Ledger) : Nat :=
  polls.elim (s.tried actions ledger) fun polls => min polls (s.tried actions ledger)

theorem due_le_tried (s : Service World) (actions : List Action) (polls : Option Nat)
    (ledger : Ledger) : s.due actions polls ledger ≤ s.tried actions ledger := by
  unfold due
  cases polls with
  | none => exact Nat.le_refl _
  | some polls => exact Nat.min_le_right _ _

theorem saveAll_eq (s : Service World) (actions : List Action) (polls : Option Nat)
    (ledger : Ledger) :
    s.saveAll actions polls ledger =
      (s.outcomes (actions.take (s.due actions polls ledger)) ledger,
        s.afterAll (actions.take (s.due actions polls ledger)) ledger) := by
  rw [saveAll, take_eq, due]
  cases polls with
  | some polls => rfl
  | none =>
    have htried : s.tried actions ledger ≤ actions.length := Nat.min_le_left _ _
    rw [Option.getD_none, Option.elim_none, Nat.min_eq_right htried]

/-- Only the last item of a stream can be a failure. -/
theorem isOk_of_mem_dropLast_saveAll {polls : Option Nat} {item : Except ActionError Action}
    (h : item ∈ (s.saveAll actions polls ledger).1.dropLast) : item.isOk = true := by
  have hdue : s.due actions polls ledger ≤ s.firstFailure actions ledger + 1 :=
    (due_le_tried s actions polls ledger).trans (Nat.min_le_right _ _)
  rw [saveAll_eq, outcomes_take, List.dropLast_eq_take, List.length_take, List.take_take] at h
  refine isOk_of_mem_take_firstFailure (List.take_subset_take_left _ ?_ h)
  omega

/-- Storing many is lazy and stops at the first failure: however often the stream is polled, its items
are what comes of storing the first actions one by one, and the ledger is the one which that leads to.
These are as many as there are polls, but none after the first that cannot be stored. So only the
last item can be a failure. -/
theorem saveAll_stores_one_by_one (s : Service World) (actions : List Action)
    (polls : Option Nat) (ledger : Ledger) :
    let reach := min actions.length (s.firstFailure actions ledger + 1)
    let n := polls.elim reach fun polls => min polls reach
    s.saveAll actions polls ledger =
      (s.outcomes (actions.take n) ledger, s.afterAll (actions.take n) ledger) ∧
    (s.saveAll actions polls ledger).1.length = n ∧
    (∀ item ∈ (s.saveAll actions polls ledger).1.dropLast, item.isOk) ∧
    s.saveAll actions (some 0) ledger = ([], ledger) ∧
    s.saveAll [] polls ledger = ([], ledger) := by
  intro reach n
  have heq : s.saveAll actions polls ledger =
      (s.outcomes (actions.take n) ledger, s.afterAll (actions.take n) ledger) :=
    saveAll_eq s actions polls ledger
  refine ⟨heq, ?_, fun item h => isOk_of_mem_dropLast_saveAll h, rfl, ?_⟩
  · have hn : n ≤ actions.length :=
      (due_le_tried s actions polls ledger).trans (Nat.min_le_left _ _)
    rw [heq, length_outcomes, List.length_take, Nat.min_eq_left hn]
  · rw [saveAll_eq, List.take_nil]
    rfl

end ActionBook.Service
