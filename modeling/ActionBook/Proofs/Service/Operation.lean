import ActionBook.Service.Basic

/-!
# `Service.Operation`: what an operation leaves behind

An operation has an outcome and leaves a ledger, also when it fails. Most operations, and all checks
that come before a write, only read: they may use up outages, but the store and the counters stay
(`ReadsOnly`). That is kept by sequencing, so that it is shown once for every call.
-/

namespace ActionBook

/-- The store of a ledger. -/
abbrev Ledger.store (ledger : Ledger) : Store := ledger.repository.store

/-- A ledger that differs at most in the calls that will fail. -/
structure Ledger.Alike (ledger other : Ledger) : Prop where
  store : other.store = ledger.store
  issued : other.issued = ledger.issued
  written : other.written = ledger.written

namespace Ledger.Alike

theorem refl (ledger : Ledger) : ledger.Alike ledger := ⟨rfl, rfl, rfl⟩

theorem trans {l₁ l₂ l₃ : Ledger} (h : l₁.Alike l₂) (h' : l₂.Alike l₃) : l₁.Alike l₃ :=
  ⟨h'.store.trans h.store, h'.issued.trans h.issued, h'.written.trans h.written⟩

end Ledger.Alike

/-- The ledger after a call to the repository that has left a store. -/
def Ledger.afterCall (ledger : Ledger) (call : StoreCall) (store : Store) : Ledger :=
  { ledger with repository := ⟨store, ledger.repository.outages.pass call⟩ }

/-- A call that has left the store as it was has changed nothing but outages. -/
theorem Ledger.alike_afterCall (ledger : Ledger) (call : StoreCall) :
    ledger.Alike (ledger.afterCall call ledger.store) := ⟨rfl, rfl, rfl⟩

namespace Operation

variable {α β : Type}

/-- What comes of an operation. -/
def outcome (op : Operation α) (ledger : Ledger) : Except ActionError α :=
  match op ledger with
  | .ok x _ => .ok x
  | .error e _ => .error e

/-- The ledger after an operation, whether it has failed or not. -/
def after (op : Operation α) (ledger : Ledger) : Ledger :=
  match op ledger with
  | .ok _ ledger => ledger
  | .error _ ledger => ledger

/-! ## Sequences -/

section Sequences

variable {x : Operation α} {f : α → Operation β} {ledger final : Ledger}

theorem bind_eq_ok_iff {y : β} :
    (x >>= f) ledger = .ok y final ↔
      ∃ a middle, x ledger = .ok a middle ∧ f a middle = .ok y final := by
  show EStateM.bind x f ledger = _ ↔ _
  unfold EStateM.bind
  cases x ledger with
  | ok a middle =>
    simp only [EStateM.Result.ok.injEq]
    constructor
    · exact fun h => ⟨a, middle, ⟨rfl, rfl⟩, h⟩
    · rintro ⟨_, _, ⟨rfl, rfl⟩, h⟩
      exact h
  | error e middle => simp

theorem bind_eq_error_iff {e : ActionError} :
    (x >>= f) ledger = .error e final ↔
      x ledger = .error e final ∨
        ∃ a middle, x ledger = .ok a middle ∧ f a middle = .error e final := by
  show EStateM.bind x f ledger = _ ↔ _
  unfold EStateM.bind
  cases x ledger with
  | ok a middle =>
    simp only [EStateM.Result.ok.injEq, reduceCtorEq, false_or]
    constructor
    · exact fun h => ⟨a, middle, ⟨rfl, rfl⟩, h⟩
    · rintro ⟨_, _, ⟨rfl, rfl⟩, h⟩
      exact h
  | error e middle => simp

theorem bind_of_eq_ok {a : α} {middle : Ledger} (h : x ledger = .ok a middle) :
    (x >>= f) ledger = f a middle := by
  show EStateM.bind x f ledger = _
  rw [EStateM.bind, h]

theorem bind_of_eq_error {e : ActionError} (h : x ledger = .error e final) :
    (x >>= f) ledger = .error e final := by
  show EStateM.bind x f ledger = _
  rw [EStateM.bind, h]

theorem outcome_bind :
    (x >>= f).outcome ledger =
      match x ledger with
      | .ok a middle => (f a).outcome middle
      | .error e _ => .error e := by
  show (match EStateM.bind x f ledger with | .ok y _ => Except.ok y | .error e _ => .error e) = _
  unfold EStateM.bind
  cases x ledger with
  | ok a middle => rfl
  | error e middle => rfl

theorem get_bind_eq_iff {f : Ledger → Operation β} {result : EStateM.Result ActionError Ledger β} :
    ((get : Operation Ledger) >>= f) ledger = result ↔ f ledger ledger = result := Iff.rfl

theorem pure_eq_ok_iff {x y : β} :
    (pure x : Operation β) ledger = .ok y final ↔ x = y ∧ ledger = final := by
  show EStateM.Result.ok x ledger = _ ↔ _
  rw [EStateM.Result.ok.injEq]

theorem modify_bind_pure_eq_ok_iff {g : Ledger → Ledger} {x y : β} :
    ((modify g : Operation Unit) >>= fun _ => pure x) ledger = .ok y final ↔
      x = y ∧ g ledger = final := by
  show EStateM.Result.ok x (g ledger) = _ ↔ _
  rw [EStateM.Result.ok.injEq]

end Sequences

/-! ## Calls -/

section Calls

variable {call : StoreCall} {act : EStateM ActionError Store α} {ledger final : Ledger}

/-- A call succeeds just if it is answered and what it is for succeeds. -/
theorem ofCall_answer_eq_ok_iff {x : α} :
    ofCall (Repository.answer call act) ledger = .ok x final ↔
      ledger.repository.outages.next? call = none ∧
        ∃ store, act ledger.store = .ok x store ∧ final = ledger.afterCall call store := by
  unfold ofCall Repository.answer Ledger.afterCall
  cases hnext : ledger.repository.outages.next? call with
  | some reason => simp
  | none =>
    cases hact : act ledger.repository.store with
    | ok y store =>
      simp only [EStateM.Result.ok.injEq, true_and]
      constructor
      · rintro ⟨rfl, rfl⟩
        exact ⟨store, ⟨rfl, rfl⟩, rfl⟩
      · rintro ⟨_, ⟨rfl, rfl⟩, rfl⟩
        exact ⟨rfl, rfl⟩
    | error e store => simp

/-- A call fails just if it is not answered, which leaves the store, or what it is for fails. -/
theorem ofCall_answer_eq_error_iff {e : ActionError} :
    ofCall (Repository.answer call act) ledger = .error e final ↔
      (∃ reason, ledger.repository.outages.next? call = some reason ∧ e = .storage reason ∧
        final = ledger.afterCall call ledger.store) ∨
      (ledger.repository.outages.next? call = none ∧
        ∃ store, act ledger.store = .error e store ∧ final = ledger.afterCall call store) := by
  unfold ofCall Repository.answer Ledger.afterCall
  cases hnext : ledger.repository.outages.next? call with
  | some reason =>
    simp only [EStateM.Result.error.injEq, Option.some.injEq, reduceCtorEq, false_and,
      or_false]
    constructor
    · rintro ⟨rfl, rfl⟩
      exact ⟨reason, rfl, rfl, rfl⟩
    · rintro ⟨_, rfl, rfl, rfl⟩
      exact ⟨rfl, rfl⟩
  | none =>
    cases hact : act ledger.repository.store with
    | ok y store => simp
    | error e' store =>
      simp only [EStateM.Result.error.injEq, reduceCtorEq, false_and, exists_false,
        false_or, true_and]
      constructor
      · rintro ⟨rfl, rfl⟩
        exact ⟨store, ⟨rfl, rfl⟩, rfl⟩
      · rintro ⟨_, ⟨rfl, rfl⟩, rfl⟩
        exact ⟨rfl, rfl⟩

theorem of_ofCall_read_eq_ok {f : Store → α} {x : α}
    (h : ofCall (Repository.read call f) ledger = .ok x final) :
    x = f ledger.store ∧ ledger.Alike final := by
  obtain ⟨-, store, hact, rfl⟩ := ofCall_answer_eq_ok_iff.1 h
  obtain ⟨rfl, rfl⟩ := hact
  exact ⟨rfl, ledger.alike_afterCall call⟩

theorem of_ofCall_read_eq_error {f : Store → α} {e : ActionError}
    (h : ofCall (Repository.read call f) ledger = .error e final) : ledger.Alike final := by
  rcases ofCall_answer_eq_error_iff.1 h with ⟨reason, -, -, rfl⟩ | ⟨-, store, hact, -⟩
  · exact ledger.alike_afterCall call
  · nomatch hact

/-- A call that is answered reads the store. -/
theorem exists_ofCall_read_eq_ok {f : Store → α}
    (hup : ledger.repository.outages.next? call = none) :
    ∃ final, ofCall (Repository.read call f) ledger = .ok (f ledger.store) final :=
  ⟨_, ofCall_answer_eq_ok_iff.2 ⟨hup, _, rfl, rfl⟩⟩

theorem outcome_ofCall_read {f : Store → α}
    (hup : ledger.repository.outages.next? call = none) :
    (ofCall (Repository.read call f)).outcome ledger = .ok (f ledger.store) := by
  obtain ⟨final, hcall⟩ := exists_ofCall_read_eq_ok (f := f) hup
  rw [outcome, hcall]

end Calls

section Writes

variable {ledger final : Ledger}

theorem of_ofCall_save_eq_ok {a saved : Action}
    (h : ofCall (Repository.save a) ledger = .ok saved final) :
    saved = a ∧ ∀ id, a.id = some id → final = ledger.afterCall .save (ledger.store.put id a) := by
  obtain ⟨-, store, hact, rfl⟩ := ofCall_answer_eq_ok_iff.1 h
  cases hid : a.id with
  | none => simp [hid] at hact
  | some id =>
    simp only [hid, EStateM.Result.ok.injEq] at hact
    obtain ⟨rfl, rfl⟩ := hact
    exact ⟨rfl, fun i hi => by rw [← Option.some.inj hi]⟩

theorem alike_of_ofCall_save_eq_error {a : Action} {e : ActionError}
    (h : ofCall (Repository.save a) ledger = .error e final) : ledger.Alike final := by
  rcases ofCall_answer_eq_error_iff.1 h with ⟨reason, -, -, rfl⟩ | ⟨-, store, hact, rfl⟩
  · exact ledger.alike_afterCall .save
  · cases hid : a.id with
    | some id => simp [hid] at hact
    | none =>
      simp only [hid, EStateM.Result.error.injEq] at hact
      obtain ⟨-, rfl⟩ := hact
      exact ledger.alike_afterCall .save

theorem of_ofCall_delete_eq_ok {id : ActionId} {found : Option Action}
    (h : ofCall (Repository.delete id) ledger = .ok found final) :
    found = ledger.store.find? id ∧ final = ledger.afterCall .delete (ledger.store.erase id) := by
  obtain ⟨-, store, hact, rfl⟩ := ofCall_answer_eq_ok_iff.1 h
  obtain ⟨rfl, rfl⟩ := hact
  exact ⟨rfl, rfl⟩

theorem alike_of_ofCall_delete_eq_error {id : ActionId} {e : ActionError}
    (h : ofCall (Repository.delete id) ledger = .error e final) : ledger.Alike final := by
  rcases ofCall_answer_eq_error_iff.1 h with ⟨reason, -, -, rfl⟩ | ⟨-, store, hact, -⟩
  · exact ledger.alike_afterCall .delete
  · nomatch hact

end Writes

/-! ## Operations that only read -/

/-- Whatever comes of it, the operation leaves store and counters as they are. -/
def ReadsOnly (op : Operation α) : Prop := ∀ ledger : Ledger, ledger.Alike (op.after ledger)

namespace ReadsOnly

variable {x : Operation α} {f : α → Operation β}

theorem of_ok (h : ReadsOnly x) {ledger final : Ledger} {a : α} (hx : x ledger = .ok a final) :
    ledger.Alike final := by
  have halike := h ledger
  rwa [after, hx] at halike

theorem of_error (h : ReadsOnly x) {ledger final : Ledger} {e : ActionError}
    (hx : x ledger = .error e final) : ledger.Alike final := by
  have halike := h ledger
  rwa [after, hx] at halike

theorem pure (a : α) : ReadsOnly (Pure.pure a : Operation α) := fun ledger => .refl ledger

theorem throw (e : ActionError) : ReadsOnly (MonadExcept.throw e : Operation α) :=
  fun ledger => .refl ledger

theorem bind (hx : ReadsOnly x) (hf : ∀ a, ReadsOnly (f a)) : ReadsOnly (x >>= f) := by
  intro ledger
  unfold after
  cases h : (x >>= f) ledger with
  | ok y final =>
    obtain ⟨a, middle, hok, hrest⟩ := bind_eq_ok_iff.1 h
    exact (hx.of_ok hok).trans ((hf a).of_ok hrest)
  | error e final =>
    rcases bind_eq_error_iff.1 h with herror | ⟨a, middle, hok, hrest⟩
    · exact hx.of_error herror
    · exact (hx.of_ok hok).trans ((hf a).of_error hrest)

theorem orFail (e : ActionError) (value : Option α) : ReadsOnly (Operation.orFail e value) := by
  cases value with
  | none => exact throw e
  | some a => exact pure a

theorem ofCall_read (call : StoreCall) (f : Store → α) :
    ReadsOnly (ofCall (Repository.read call f)) := by
  intro ledger
  unfold after
  cases h : ofCall (Repository.read call f) ledger with
  | ok x final => exact (of_ofCall_read_eq_ok h).2
  | error e final => exact of_ofCall_read_eq_error h

end ReadsOnly

end Operation

end ActionBook
