import ActionBook.Proofs.Action.Derived
import ActionBook.Proofs.Service.Operation
import ActionBook.Proofs.Store.View
import ActionBook.Service.Writing

/-!
# `Service.Persisting`: what storing an action does

All that can be said about storing an action is said once here. Where it succeeds, nothing spoke
against the action in the store as it was (`Accepted`), and one entry of that store has changed
(`Wrote`). Where it fails, neither the store nor the counters have (`alike_of_persist_eq_error`).
-/

namespace ActionBook

/-- What is stored under the id of an action, if it has one. -/
def Store.predecessor? (store : Store) (a : Action) : Option Action := a.id.bind store.find?

namespace Service

open Operation

variable {World : Type} {s : Service World} {a saved : Action} {mustReplace : Bool}
  {ledger final : Ledger}

/-- The id that an action is stored under: its own, or the next one to be given. -/
def idFor (s : Service World) (ledger : Ledger) (a : Action) : ActionId :=
  a.id.getD (s.ids ledger.issued)

/-- Nothing speaks against storing an action. -/
structure Accepted (store : Store) (a : Action) (mustReplace : Bool) : Prop where
  name : Text.isBlankText a.name = false
  previous : mustReplace → (store.predecessor? a).isSome
  unique : ∀ other, store.findNamed? a.name = some other → other.id = a.id

/-- The action has been completed and put under its id; the write and a new id have been counted. -/
structure Wrote (s : Service World) (ledger : Ledger) (a saved : Action) (final : Ledger) : Prop where
  saved_eq : saved = s.completed ledger (ledger.store.predecessor? a) a
  store : final.store = ledger.store.put (s.idFor ledger a) saved
  issued : final.issued = if a.id.isNone then ledger.issued + 1 else ledger.issued
  written : final.written = ledger.written + 1

/-! ## The checks -/

theorem readsOnly_checkName (a : Action) : ReadsOnly (checkName a) := by
  unfold checkName
  split
  · exact .throw _
  · exact .pure _

theorem of_checkName_eq_ok (h : checkName a ledger = .ok () final) :
    Text.isBlankText a.name = false := by
  unfold checkName at h
  split at h
  · nomatch h
  next hname => simpa using hname

theorem readsOnly_findPrevious (a : Action) : ReadsOnly (findPrevious a) := by
  unfold findPrevious
  split
  · exact .ofCall_read _ _
  · exact .pure _

theorem of_findPrevious_eq_ok {previous : Option Action}
    (h : findPrevious a ledger = .ok previous final) : previous = ledger.store.predecessor? a := by
  unfold findPrevious at h
  unfold Store.predecessor?
  cases hid : a.id with
  | some id =>
    rw [hid] at h
    exact (of_ofCall_read_eq_ok h).1
  | none =>
    rw [hid] at h
    cases h
    rfl

theorem readsOnly_checkPrevious (a : Action) (mustReplace : Bool) (previous : Option Action) :
    ReadsOnly (checkPrevious a mustReplace previous) := by
  unfold checkPrevious
  split
  · split
    · exact .throw _
    · exact .throw _
  · exact .pure _

theorem of_checkPrevious_eq_ok {previous : Option Action}
    (h : checkPrevious a mustReplace previous ledger = .ok () final) (hmust : mustReplace) :
    previous.isSome := by
  unfold checkPrevious at h
  cases previous with
  | some p => rfl
  | none =>
    simp only [hmust, Option.isNone_none, Bool.and_self, if_true] at h
    cases hid : a.id with
    | some id => simp only [hid] at h; nomatch h
    | none => simp only [hid] at h; nomatch h

theorem readsOnly_checkUnique (a : Action) : ReadsOnly (checkUnique a) := by
  refine .bind (.ofCall_read _ _) fun found => ?_
  split
  · split
    · exact .pure _
    · exact .throw _
  · exact .pure _

theorem of_checkUnique_eq_ok (h : checkUnique a ledger = .ok () final) {other : Action}
    (hother : ledger.store.findNamed? a.name = some other) : other.id = a.id := by
  obtain ⟨found, middle, hfound, h⟩ := bind_eq_ok_iff.1 h
  have hread := (of_ofCall_read_eq_ok hfound).1
  rw [hother] at hread
  subst hread
  by_cases hid : other.id = a.id
  · exact hid
  · simp only [if_neg hid] at h
    nomatch h

/-- All checks before a write, which give what is to be replaced. -/
def checked (a : Action) (mustReplace : Bool) : Operation (Option Action) := do
  checkName a
  let previous ← findPrevious a
  checkPrevious a mustReplace previous
  checkUnique a
  return previous

theorem readsOnly_checked (a : Action) (mustReplace : Bool) : ReadsOnly (checked a mustReplace) :=
  .bind (readsOnly_checkName a) fun _ =>
    .bind (readsOnly_findPrevious a) fun previous =>
      .bind (readsOnly_checkPrevious a mustReplace previous) fun _ =>
        .bind (readsOnly_checkUnique a) fun _ => .pure previous

theorem of_checked_eq_ok {previous : Option Action}
    (h : checked a mustReplace ledger = .ok previous final) :
    previous = ledger.store.predecessor? a ∧ Accepted ledger.store a mustReplace := by
  unfold checked at h
  obtain ⟨_, l₁, hname, h⟩ := bind_eq_ok_iff.1 h
  obtain ⟨found, l₂, hfound, h⟩ := bind_eq_ok_iff.1 h
  obtain ⟨_, l₃, hprevious, h⟩ := bind_eq_ok_iff.1 h
  obtain ⟨_, l₄, hunique, h⟩ := bind_eq_ok_iff.1 h
  obtain ⟨rfl, rfl⟩ := pure_eq_ok_iff.1 h
  -- every check sees the store as it was at first
  have h₁ : ledger.Alike l₁ := (readsOnly_checkName a).of_ok hname
  have h₂ : ledger.Alike l₂ := h₁.trans ((readsOnly_findPrevious a).of_ok hfound)
  have h₃ : ledger.Alike l₃ :=
    h₂.trans ((readsOnly_checkPrevious a mustReplace found).of_ok hprevious)
  have hfound' : found = ledger.store.predecessor? a := by
    rw [of_findPrevious_eq_ok hfound, h₁.store]
  refine ⟨hfound', of_checkName_eq_ok hname, ?_, ?_⟩
  · intro hmust
    rw [← hfound']
    exact of_checkPrevious_eq_ok hprevious hmust
  · intro other hother
    rw [← h₃.store] at hother
    exact of_checkUnique_eq_ok hunique hother

/-! ## The completed action -/

/-- A completed action carries the id that it is stored under. -/
theorem id_completed (s : Service World) (ledger : Ledger) (store : Store) (a : Action) :
    (s.completed ledger (store.predecessor? a) a).id = some (s.idFor ledger a) := by
  unfold completed Store.predecessor? idFor
  cases a.id with
  | none => rfl
  | some id =>
    rw [Option.bind_some]
    cases store.find? id <;> rfl

theorem sameContent_completed (s : Service World) (ledger : Ledger) (previous : Option Action)
    (a : Action) : a.SameContent (s.completed ledger previous a) := by
  cases previous with
  | none => exact ⟨rfl, rfl, rfl, rfl⟩
  | some p => exact ⟨rfl, rfl, rfl, rfl⟩

theorem refreshed_completed (s : Service World) (ledger : Ledger) (previous : Option Action)
    (a : Action) : (s.completed ledger previous a).refreshed = s.completed ledger previous a := by
  cases previous with
  | none => rfl
  | some p => rfl

/-- What replaces an action was created when that one was; anything else is created now. -/
theorem createdAt_completed (s : Service World) (ledger : Ledger) (previous : Option Action)
    (a : Action) : (s.completed ledger previous a).createdAt =
      previous.elim (some (s.clock ledger.written)) Action.createdAt := by
  cases previous with
  | none => rfl
  | some p => rfl

theorem updatedAt_completed (s : Service World) (ledger : Ledger) (previous : Option Action)
    (a : Action) :
    (s.completed ledger previous a).updatedAt = some (s.clock ledger.written) := rfl

/-! ## What has been stored -/

namespace Wrote

/-- What comes back carries the id that it is stored under. -/
theorem id_saved (h : s.Wrote ledger a saved final) : saved.id = some (s.idFor ledger a) := by
  rw [h.saved_eq]
  exact s.id_completed ledger ledger.store a

theorem sameContent (h : s.Wrote ledger a saved final) : a.SameContent saved := by
  rw [h.saved_eq]
  exact s.sameContent_completed ledger _ a

theorem changesAt (h : s.Wrote ledger a saved final) :
    ledger.store.ChangesAt final.store (s.idFor ledger a) (some saved) := by
  rw [h.store]
  exact Store.changesAt_put _ _ _

end Wrote

/-! ## Storing -/

/-- Storing is the checks and then the write. -/
theorem persist_eq (s : Service World) (a : Action) (mustReplace : Bool) :
    s.persist a mustReplace = do
      let previous ← checked a mustReplace
      let saved ← ofCall (Repository.save (s.completed (← get) previous a))
      modify (count a)
      return saved := by
  unfold persist checked
  simp only [bind_assoc, pure_bind]

theorem of_persist_eq_ok (h : s.persist a mustReplace ledger = .ok saved final) :
    Accepted ledger.store a mustReplace ∧ s.Wrote ledger a saved final := by
  rw [persist_eq] at h
  obtain ⟨previous, middle, hchecked, h⟩ := bind_eq_ok_iff.1 h
  obtain ⟨_, l, hsave, h⟩ := bind_eq_ok_iff.1 (get_bind_eq_iff.1 h)
  obtain ⟨rfl, rfl⟩ := modify_bind_pure_eq_ok_iff.1 h
  obtain ⟨rfl, accepted⟩ := of_checked_eq_ok hchecked
  have halike : ledger.Alike middle := (readsOnly_checked a mustReplace).of_ok hchecked
  have hcompleted : s.completed middle (ledger.store.predecessor? a) a =
      s.completed ledger (ledger.store.predecessor? a) a := by
    unfold completed
    rw [halike.written, halike.issued]
  rw [hcompleted] at hsave
  -- the checks have only used up outages, so the write starts from the store they have seen
  obtain ⟨rfl, hl⟩ := of_ofCall_save_eq_ok hsave
  have hl := hl _ (id_completed s ledger ledger.store a)
  subst hl
  refine ⟨accepted, rfl, ?_, ?_, ?_⟩
  · show middle.store.put _ _ = _
    rw [halike.store]
  · show (if a.id.isNone then middle.issued + 1 else middle.issued) = _
    rw [halike.issued]
  · show middle.written + 1 = _
    rw [halike.written]

theorem alike_of_persist_eq_error {e : ActionError}
    (h : s.persist a mustReplace ledger = .error e final) : ledger.Alike final := by
  rw [persist_eq] at h
  rcases bind_eq_error_iff.1 h with hchecked | ⟨previous, middle, hchecked, h⟩
  · exact (readsOnly_checked a mustReplace).of_error hchecked
  have halike : ledger.Alike middle := (readsOnly_checked a mustReplace).of_ok hchecked
  rcases bind_eq_error_iff.1 (get_bind_eq_iff.1 h) with hsave | ⟨_, l, -, h⟩
  · exact halike.trans (alike_of_ofCall_save_eq_error hsave)
  · nomatch h

end Service

end ActionBook
