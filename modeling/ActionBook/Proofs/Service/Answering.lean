import ActionBook.Proofs.Service.Persisting

/-!
# `Service.Answering`: storing while the repository answers

If no call to the repository fails, whether an action can be stored is decided by the action and the
store: `Service.objection?` is the first thing that speaks against it. With an objection, storing
fails with it and leaves everything as it is (`persist_eq_error`); without one it succeeds
(`exists_persist_eq_ok`).
-/

namespace ActionBook

theorem Outages.pass_none (call : StoreCall) : Outages.none.pass call = .none := by
  funext c
  unfold pass none
  split <;> rfl

/-- All calls to the repository are answered. -/
def Ledger.Answering (ledger : Ledger) : Prop := ledger.repository.outages = .none

theorem Ledger.Answering.next?_eq_none {ledger : Ledger} (h : ledger.Answering)
    (call : StoreCall) : ledger.repository.outages.next? call = none := by
  rw [h]
  rfl

theorem Ledger.Answering.afterCall {ledger : Ledger} (h : ledger.Answering) (call : StoreCall)
    (store : Store) : (ledger.afterCall call store).Answering := by
  show ledger.repository.outages.pass call = .none
  rw [h, Outages.pass_none]

/-- A call that is answered and leaves the store as it is changes nothing. -/
theorem Ledger.Answering.afterCall_store {ledger : Ledger} (h : ledger.Answering)
    (call : StoreCall) : ledger.afterCall call ledger.store = ledger := by
  have hpass : ledger.repository.outages.pass call = ledger.repository.outages := by
    rw [h, Outages.pass_none]
  rw [Ledger.afterCall, hpass]

namespace Service

open Operation

variable {World : Type} {s : Service World} {a : Action} {mustReplace : Bool} {ledger : Ledger}
  {e : ActionError}

theorem ofCall_read_eq_ok {α : Type} (h : ledger.Answering) (call : StoreCall) (f : Store → α) :
    ofCall (Repository.read call f) ledger = .ok (f ledger.store) ledger :=
  ofCall_answer_eq_ok_iff.2 ⟨h.next?_eq_none call, _, rfl, (h.afterCall_store call).symm⟩

theorem ofCall_save_eq_ok (h : ledger.Answering) {id : ActionId} (hid : a.id = some id) :
    ofCall (Repository.save a) ledger = .ok a (ledger.afterCall .save (ledger.store.put id a)) :=
  ofCall_answer_eq_ok_iff.2 ⟨h.next?_eq_none .save, _, by rw [hid], rfl⟩

/-- The first thing that speaks against storing an action. -/
def objection? (store : Store) (a : Action) (mustReplace : Bool) : Option ActionError :=
  if Text.isBlankText a.name then some (.invalidParameter "action name must not be empty")
  else if mustReplace && (store.predecessor? a).isNone then
    some (a.id.elim (.invalidParameter "an update needs an id") .unknownId)
  else
    match store.findNamed? a.name with
    | some other => if other.id = a.id then none else some (.duplicateName a.name)
    | none => none

theorem findPrevious_eq_ok (h : ledger.Answering) (a : Action) :
    findPrevious a ledger = .ok (ledger.store.predecessor? a) ledger := by
  unfold findPrevious Store.predecessor?
  cases a.id with
  | some id => exact ofCall_read_eq_ok h .findById _
  | none => rfl

theorem checkUnique_eq (h : ledger.Answering) (a : Action) :
    checkUnique a ledger =
      match ledger.store.findNamed? a.name with
      | some other => if other.id = a.id then .ok () ledger else .error (.duplicateName a.name) ledger
      | none => .ok () ledger := by
  have hcall : ofCall (Repository.findByName a.name) ledger =
      .ok (ledger.store.findNamed? a.name) ledger := ofCall_read_eq_ok h .findByName _
  unfold checkUnique
  rw [bind_of_eq_ok hcall]
  cases ledger.store.findNamed? a.name with
  | none => rfl
  | some other =>
    by_cases hid : other.id = a.id
    · simp only [if_pos hid]
      rfl
    · simp only [if_neg hid]
      rfl

/-- The checks find the first objection. -/
theorem checked_eq (h : ledger.Answering) (a : Action) (mustReplace : Bool) :
    checked a mustReplace ledger =
      match objection? ledger.store a mustReplace with
      | some e => .error e ledger
      | none => .ok (ledger.store.predecessor? a) ledger := by
  unfold checked objection?
  by_cases hname : Text.isBlankText a.name = true
  · rw [if_pos hname]
    refine bind_of_eq_error ?_
    rw [checkName, if_pos hname]
    rfl
  have hcheckName : checkName a ledger = .ok () ledger := by
    rw [checkName, if_neg hname]
    rfl
  rw [if_neg hname, bind_of_eq_ok hcheckName, bind_of_eq_ok (findPrevious_eq_ok h a)]
  by_cases hprevious : (mustReplace && (ledger.store.predecessor? a).isNone) = true
  · rw [if_pos hprevious]
    refine bind_of_eq_error ?_
    rw [checkPrevious, if_pos hprevious]
    cases a.id <;> rfl
  have hcheckPrevious :
      checkPrevious a mustReplace (ledger.store.predecessor? a) ledger = .ok () ledger := by
    rw [checkPrevious, if_neg hprevious]
    rfl
  rw [if_neg hprevious, bind_of_eq_ok hcheckPrevious]
  have hunique := checkUnique_eq h a
  cases hnamed : ledger.store.findNamed? a.name with
  | none =>
    rw [hnamed] at hunique
    exact bind_of_eq_ok hunique
  | some other =>
    simp only [hnamed] at hunique ⊢
    by_cases hid : other.id = a.id
    · rw [if_pos hid] at hunique ⊢
      exact bind_of_eq_ok hunique
    · rw [if_neg hid] at hunique ⊢
      exact bind_of_eq_error hunique

/-- Storing fails with the first objection, and everything stays as it is. -/
theorem persist_eq_error (h : ledger.Answering)
    (hobjection : objection? ledger.store a mustReplace = some e) :
    s.persist a mustReplace ledger = .error e ledger := by
  rw [persist_eq]
  refine bind_of_eq_error ?_
  rw [checked_eq h, hobjection]

/-- Without an objection, storing succeeds. -/
theorem exists_persist_eq_ok (h : ledger.Answering)
    (hobjection : objection? ledger.store a mustReplace = none) :
    ∃ saved final, s.persist a mustReplace ledger = .ok saved final ∧ final.Answering ∧
      s.Wrote ledger a saved final := by
  have hchecked : checked a mustReplace ledger = .ok (ledger.store.predecessor? a) ledger := by
    rw [checked_eq h, hobjection]
  have hsave := ofCall_save_eq_ok h (s.id_completed ledger ledger.store a)
  have hpersist : s.persist a mustReplace ledger =
      .ok (s.completed ledger (ledger.store.predecessor? a) a)
        (count a (ledger.afterCall .save (ledger.store.put (s.idFor ledger a)
          (s.completed ledger (ledger.store.predecessor? a) a)))) := by
    rw [persist_eq, bind_of_eq_ok hchecked]
    refine get_bind_eq_iff.2 ?_
    rw [bind_of_eq_ok hsave]
    rfl
  exact ⟨_, _, hpersist, h.afterCall _ _, (of_persist_eq_ok hpersist).2⟩

/-- Storing an action does not keep the repository from answering. -/
theorem answering_after_save (h : ledger.Answering) (s : Service World) (a : Action) :
    ((s.save a).after ledger).Answering := by
  rw [Operation.after, save]
  cases hobjection : objection? ledger.store a false with
  | some e => rwa [persist_eq_error h hobjection]
  | none =>
    obtain ⟨saved, final, hpersist, hfinal, -⟩ := exists_persist_eq_ok h hobjection
    rwa [hpersist]

end Service

end ActionBook
