import ActionBook.Proofs.Service.Journal
import Mathlib.Data.List.Induction

/-!
# `Service.Times`: when stored actions were created and updated

Every write takes the next stamp of the clock, so that the stamp of a receipt is told by the number
of writes before it. A stored action was updated with the stamp of the last write under its id, and
created with the stamp of the write that found nothing under the id, since when nothing under it has
been removed (`times_follow_journal`). What came with a request as its times does not show.
-/

namespace ActionBook.Service

open Relation (ReflTransGen)
open Receipt (Latest)

/-! ## Stamps -/

namespace Receipt

/-- Whether something has been stored. -/
def isStored : Receipt → Bool
  | .stored _ _ _ => true
  | .removed _ _ => false

/-- How many of some receipts are for storing something. -/
def writes (rs : List Receipt) : Nat := rs.countP isStored

/-- After some receipts there is nothing under an id: none is about it, or the last one that is
about it is for removing. -/
def Absent (rs : List Receipt) (id : ActionId) : Prop := ∀ a, ¬ Latest rs id a

end Receipt

open Receipt (writes Absent)

variable {World : Type} {s : Service World} {ledger middle final : Ledger} {r : Receipt}
  {rs rs' : List Receipt} {id : ActionId} {a given saved : Action} {target : Option ActionId}
  {steps : List (Step World)} {stamp : Timestamp}

/-- The stamp is that of the last write under an id, and nothing has been removed there since. -/
def LastWritten (s : Service World) (rs : List Receipt) (id : ActionId) (stamp : Timestamp) :
    Prop :=
  ∃ before target given saved after, rs = before ++ .stored target given saved :: after ∧
    saved.id = some id ∧ (∀ r ∈ after, r.id? ≠ some id) ∧ stamp = s.clock (writes before)

/-- The stamp is that of a write under an id where there was nothing, and nothing has been removed
there since. -/
def FirstWritten (s : Service World) (rs : List Receipt) (id : ActionId) (stamp : Timestamp) :
    Prop :=
  ∃ before target given saved after, rs = before ++ .stored target given saved :: after ∧
    saved.id = some id ∧ Absent before id ∧ (∀ a, .removed id a ∉ after) ∧
    stamp = s.clock (writes before)

/-- Another write does not change what the first one was. -/
theorem FirstWritten.concat (h : s.FirstWritten rs id stamp) (hr : ∀ a, r ≠ .removed id a) :
    s.FirstWritten (rs ++ [r]) id stamp := by
  obtain ⟨before, target, given, saved, after, rfl, hid, habsent, hafter, hstamp⟩ := h
  refine ⟨before, target, given, saved, after ++ [r], by simp, hid, habsent, fun a hmem => ?_,
    hstamp⟩
  rcases List.mem_append.1 hmem with hmem | hmem
  · exact hafter a hmem
  · exact hr a (List.mem_singleton.1 hmem).symm

/-! ## Writes and the clock -/

theorem Transaction.written_eq (h : s.Transaction ledger r final) :
    final.written = ledger.written + writes [r] := by
  cases h with
  | stored content accepted wrote => exact wrote.written
  | removed found store issued written => exact written

theorem Trace.written_eq (trace : s.Trace ledger rs final) :
    final.written = ledger.written + writes rs := by
  induction trace with
  | alike h => exact h.written
  | @cons _ _ _ _ r rs before transaction _ ih =>
    rw [ih, transaction.written_eq, before.written, Nat.add_assoc, writes, writes, writes,
      ← List.countP_append]
    rfl

/-- A write takes the stamp after those of the writes before it. -/
theorem Transaction.updatedAt_saved (h : s.Transaction ledger (.stored target given saved) final) :
    saved.updatedAt = some (s.clock ledger.written) := by
  cases h with
  | stored content accepted wrote =>
    rw [wrote.saved_eq]
    exact updatedAt_completed s ledger _ _

/-- What is stored was created when what it replaces was; what replaces nothing is created now. -/
theorem Transaction.createdAt_saved (h : s.Transaction ledger (.stored target given saved) final) :
    saved.createdAt =
      (target.bind ledger.store.find?).elim (some (s.clock ledger.written)) Action.createdAt := by
  cases h with
  | stored content accepted wrote =>
    rw [wrote.saved_eq]
    exact createdAt_completed s ledger _ _

/-! ## The last write -/

/-- A stored action was updated when it was last written. -/
theorem lastWritten_of_find? (h : (s.history steps).store.find? id = some a) :
    ∃ stamp, a.updatedAt = some stamp ∧ s.LastWritten (s.journal steps) id stamp := by
  obtain ⟨before, target, given, after, hjournal, hid, hafter⟩ :=
    (find?_history_eq_some_iff s steps).1 h
  obtain ⟨middle, next, first, transaction, -⟩ := exists_transaction hjournal
  refine ⟨_, transaction.updatedAt_saved, before, target, given, a, after, hjournal, hid, hafter, ?_⟩
  rw [first.written_eq]
  exact congrArg s.clock (Nat.zero_add _)

/-! ## The first write -/

/-- If every stored action was created when it was first written, this is so after one more
transaction, provided that it gives no id which was in use before. -/
theorem Transaction.firstWritten (first : s.Trace {} rs middle)
    (transaction : s.Transaction middle r final)
    (hnew : ∀ given saved, r = .stored none given saved → ∀ r' ∈ rs, r'.id? ≠ saved.id)
    (ih : ∀ a, middle.store.find? id = some a →
      ∃ stamp, a.createdAt = some stamp ∧ s.FirstWritten rs id stamp)
    (h : final.store.find? id = some a) :
    ∃ stamp, a.createdAt = some stamp ∧ s.FirstWritten (rs ++ [r]) id stamp := by
  obtain ⟨i, hi, changes⟩ := transaction.changesAt
  by_cases hid : id = i
  · subst hid
    rw [changes.here] at h
    cases r with
    | removed j b => nomatch h
    | stored target given saved =>
      cases h
      have hcreated := transaction.createdAt_saved
      cases hprevious : target.bind middle.store.find? with
      | some p =>
        -- the action replaces one that was there
        obtain ⟨j, rfl, hp⟩ := Option.bind_eq_some_iff.1 hprevious
        obtain rfl : j = id := Option.some.inj (transaction.id_saved.symm.trans hi)
        obtain ⟨stamp, hstamp, hfirst⟩ := ih p hp
        rw [hprevious, Option.elim_some, hstamp] at hcreated
        exact ⟨stamp, hcreated, hfirst.concat fun b hr => nomatch hr⟩
      | none =>
        rw [hprevious] at hcreated
        refine ⟨_, hcreated, rs, target, given, a, [], rfl, hi, fun b hlatest => ?_, by simp, ?_⟩
        · cases target with
          | none =>
            obtain ⟨before, target', given', after, rfl, hb, -⟩ := hlatest
            exact hnew given a rfl (.stored target' given' b) (by simp) (hb.trans hi.symm)
          | some j =>
            obtain rfl : j = id := Option.some.inj (transaction.id_saved.symm.trans hi)
            have hthere := first.find?_eq_some_iff_of_empty.2 hlatest
            rw [Option.bind_some, hthere] at hprevious
            nomatch hprevious
        · rw [first.written_eq]
          exact congrArg s.clock (Nat.zero_add _)
  · rw [changes.elsewhere id hid] at h
    obtain ⟨stamp, hstamp, hfirst⟩ := ih a h
    refine ⟨stamp, hstamp, hfirst.concat fun b hr => ?_⟩
    rw [hr] at hi
    exact hid (Option.some.inj hi)

/-- After the first receipts of a history, what is stored under an id was created when it was first
written. -/
theorem firstWritten_of_trace (hfresh : s.FreshIds steps) (hjournal : s.journal steps = rs ++ rs')
    (trace : s.Trace {} rs final) (h : final.store.find? id = some a) :
    ∃ stamp, a.createdAt = some stamp ∧ s.FirstWritten rs id stamp := by
  -- from the first receipt to the last, each being for one transaction
  induction rs using List.reverseRecOn generalizing rs' final a with
  | nil =>
    obtain ⟨before, target, given, after, heq, -⟩ := trace.find?_eq_some_iff_of_empty.1 h
    simp at heq
  | append_singleton rs r ih =>
    rw [List.append_assoc] at hjournal
    obtain ⟨middle, next, first, transaction, last⟩ := trace.split
    cases last with
    | alike halike =>
      rw [halike.store] at h
      refine transaction.firstWritten first ?_ (fun b hb => ih hjournal first hb) h
      rintro given saved rfl r' hr'
      exact id?_ne_of_mem_before hfresh hjournal hr'

/-- A stored action was created when it was first written, if new ids are new. -/
theorem firstWritten_of_find? (hfresh : s.FreshIds steps)
    (h : (s.history steps).store.find? id = some a) :
    ∃ stamp, a.createdAt = some stamp ∧ s.FirstWritten (s.journal steps) id stamp :=
  firstWritten_of_trace hfresh (List.append_nil _).symm (trace_history s steps) h

/-! ## The order of times -/

/-- An action was created with the stamp of a write and updated with that of the same or a later
one, and these writes have been counted. -/
def Dated (s : Service World) (ledger : Ledger) (a : Action) : Prop :=
  ∃ created updated, created ≤ updated ∧ updated < ledger.written ∧
    a.createdAt = some (s.clock created) ∧ a.updatedAt = some (s.clock updated)

/-- Every change keeps the stored actions dated. -/
theorem Changed.dated (h : s.Changed ledger final)
    (hdated : ∀ id a, ledger.store.find? id = some a → s.Dated ledger a) :
    ∀ id a, final.store.find? id = some a → s.Dated final a := by
  intro id a ha
  cases h with
  | alike h =>
    rw [h.store] at ha
    obtain ⟨created, updated, hle, hlt, htimes⟩ := hdated id a ha
    exact ⟨created, updated, hle, h.written.symm ▸ hlt, htimes⟩
  | erased store issued written =>
    rw [store, Store.find?_erase] at ha
    split at ha
    · nomatch ha
    · obtain ⟨created, updated, hle, hlt, htimes⟩ := hdated id a ha
      exact ⟨created, updated, hle, written.symm ▸ hlt, htimes⟩
  | @wrote b saved mustReplace accepted wrote =>
    have hwritten := wrote.written
    rw [wrote.store, Store.find?_put] at ha
    split at ha
    · -- what has been written now was created now or when what it replaces was
      obtain rfl := Option.some.inj ha
      have hcreated := createdAt_completed s ledger (ledger.store.predecessor? b) b
      have hupdated := updatedAt_completed s ledger (ledger.store.predecessor? b) b
      rw [← wrote.saved_eq] at hcreated hupdated
      cases hprevious : ledger.store.predecessor? b with
      | none =>
        rw [hprevious] at hcreated
        exact ⟨ledger.written, ledger.written, Nat.le_refl _, by omega, hcreated, hupdated⟩
      | some p =>
        obtain ⟨i, -, hp⟩ := Option.bind_eq_some_iff.1 hprevious
        obtain ⟨created, updated, hle, hlt, hp', -⟩ := hdated i p hp
        rw [hprevious] at hcreated
        exact ⟨created, ledger.written, by omega, by omega, hcreated.trans hp', hupdated⟩
    · obtain ⟨created, updated, hle, hlt, htimes⟩ := hdated id a ha
      exact ⟨created, updated, hle, by omega, htimes⟩

theorem dated_history (s : Service World) (steps : List (Step World)) :
    ∀ id a, (s.history steps).store.find? id = some a → s.Dated (s.history steps) a := by
  have hreaches := reaches_history (s := s) steps
  generalize s.history steps = final at hreaches
  induction hreaches with
  | refl =>
    intro id a h
    have hempty : ({} : Ledger).store.find? id ≠ some a := nofun
    exact absurd h hempty
  | tail _ hchanged ih => exact hchanged.dated ih

/-- The times of stored actions follow from the journal of the history, whatever times the requests
carry and however many of them fail. What is stored under an id was updated with the stamp of the
last write under it. If new ids are new, it was created with the stamp of the write that first stored
something under the id when there was nothing, since when nothing under it has been removed. So if
the clock never goes back, no stored action was updated before it was created. -/
theorem times_follow_journal (s : Service World) (steps : List (Step World)) :
    (∀ id a, (s.history steps).store.find? id = some a →
      ∃ stamp, a.updatedAt = some stamp ∧ s.LastWritten (s.journal steps) id stamp) ∧
    (s.FreshIds steps → ∀ id a, (s.history steps).store.find? id = some a →
      ∃ stamp, a.createdAt = some stamp ∧ s.FirstWritten (s.journal steps) id stamp) ∧
    ((∀ m n, m ≤ n → s.clock m ≤ s.clock n) → ∀ id a, (s.history steps).store.find? id = some a →
      ∃ created updated, a.createdAt = some created ∧ a.updatedAt = some updated ∧
        created ≤ updated) := by
  refine ⟨fun id a h => lastWritten_of_find? h, fun hfresh id a h => firstWritten_of_find? hfresh h,
    fun hclock id a h => ?_⟩
  obtain ⟨created, updated, hle, -, hcreated, hupdated⟩ := dated_history s steps id a h
  exact ⟨_, _, hcreated, hupdated, hclock created updated hle⟩

end ActionBook.Service
