import ActionBook.Proofs.Service.History
import ActionBook.Proofs.Service.Reading

/-!
# `Service.Journal`: reading sees the last write

The journal of a history determines what is stored after it: under an id there is the action of the
last receipt about this id, if that is one for storing (`find?_history_eq_some_iff`). The ids given to
actions that come without one are counted, so that with ids that are new (`Service.FreshIds`) such an
action gets one which nothing in the journal is about (`id?_ne_of_mem_before`).
-/

namespace ActionBook.Service

namespace Receipt

/-- The id that a receipt is about. -/
def id? : Receipt → Option ActionId
  | .stored _ _ saved => saved.id
  | .removed id _ => some id

/-- What is kept under the id of a receipt after the change. -/
def entry : Receipt → Option Action
  | .stored _ _ saved => some saved
  | .removed _ _ => none

/-- Whether a new id has been given. -/
def isNew : Receipt → Bool
  | .stored none _ _ => true
  | _ => false

/-- The last of some receipts about an id is for storing an action. -/
def Latest (receipts : List Receipt) (id : ActionId) (a : Action) : Prop :=
  ∃ before target given after, receipts = before ++ .stored target given a :: after ∧
    a.id = some id ∧ ∀ r ∈ after, r.id? ≠ some id

variable {r : Receipt} {rs : List Receipt} {id : ActionId} {a : Action}

theorem not_latest_nil : ¬ Latest [] id a := by
  rintro ⟨before, target, given, after, heq, -⟩
  simp at heq

/-- The latest receipt is among the later ones, or it is the first and none of those is about the id. -/
theorem latest_cons_iff :
    Latest (r :: rs) id a ↔
      Latest rs id a ∨ r.id? = some id ∧ r.entry = some a ∧ ∀ r' ∈ rs, r'.id? ≠ some id := by
  constructor
  · rintro ⟨before, target, given, after, heq, hid, hafter⟩
    rcases List.cons_eq_append_iff.1 heq with ⟨-, hr⟩ | ⟨before, -, hrs⟩
    · obtain ⟨rfl, rfl⟩ := List.cons.inj hr
      exact .inr ⟨hid, rfl, hafter⟩
    · exact .inl ⟨before, target, given, after, hrs, hid, hafter⟩
  · rintro (⟨before, target, given, after, rfl, hid, hafter⟩ | ⟨hid, hentry, hafter⟩)
    · exact ⟨r :: before, target, given, after, rfl, hid, hafter⟩
    · cases r with
      | stored target given saved =>
        cases hentry
        exact ⟨[], target, given, rs, rfl, hid, hafter⟩
      | removed id b => cases hentry

end Receipt

open Receipt (Latest ofSaving ofSavingAll ofRemoving)

variable {World : Type} {s : Service World} {ledger middle final : Ledger} {r : Receipt}
  {rs rs' : List Receipt} {id : ActionId} {a given saved : Action} {target : Option ActionId}
  {steps : List (Step World)}

/-! ## Transactions -/

namespace Transaction

/-- What has been stored has the id that was asked for, or else the next new one. -/
theorem id_saved (h : s.Transaction ledger (.stored target given saved) final) :
    saved.id = some (target.getD (s.ids ledger.issued)) := by
  cases h with
  | stored content accepted wrote => exact wrote.id_saved

theorem sameContent (h : s.Transaction ledger (.stored target given saved) final) :
    given.SameContent saved := by
  cases h with
  | stored content accepted wrote => exact content.trans wrote.sameContent

/-- A transaction changes the entry of one id, which its receipt is about. -/
theorem changesAt (h : s.Transaction ledger r final) :
    ∃ id, r.id? = some id ∧ ledger.store.ChangesAt final.store id r.entry := by
  cases h with
  | stored content accepted wrote => exact ⟨_, wrote.id_saved, wrote.changesAt⟩
  | removed found store issued written =>
    refine ⟨_, rfl, ?_⟩
    rw [store]
    exact Store.changesAt_erase _ _

theorem issued_eq (h : s.Transaction ledger r final) :
    final.issued = ledger.issued + [r].countP Receipt.isNew := by
  cases h with
  | @stored _ a _ _ _ content accepted wrote =>
    rw [wrote.issued]
    cases a.id <;> rfl
  | removed found store issued written => rw [issued]; rfl

end Transaction

/-! ## Traces -/

namespace Trace

theorem issued_eq (trace : s.Trace ledger rs final) :
    final.issued = ledger.issued + rs.countP Receipt.isNew := by
  induction trace with
  | alike h => rw [h.issued]; rfl
  | @cons _ _ _ _ r rs before transaction _ ih =>
    rw [ih, transaction.issued_eq, before.issued, Nat.add_assoc, ← List.countP_append]
    rfl

theorem issued_le (trace : s.Trace ledger rs final) : ledger.issued ≤ final.issued := by
  rw [trace.issued_eq]
  omega

/-- Every receipt of a trace is for a transaction, between what the receipts before it and those after
it are for. -/
theorem split (trace : s.Trace ledger (rs ++ r :: rs') final) :
    ∃ middle next, s.Trace ledger rs middle ∧ s.Transaction middle r next ∧
      s.Trace next rs' final := by
  induction rs generalizing ledger with
  | nil =>
    cases trace with
    | cons before transaction rest => exact ⟨_, _, .alike before, transaction, rest⟩
  | cons r' rs ih =>
    cases trace with
    | cons before transaction rest =>
      obtain ⟨middle, next, first, h, last⟩ := ih rest
      exact ⟨middle, next, .cons before transaction first, h, last⟩

/-- After a trace, there is under an id what the latest receipt about it has stored; an id that no
receipt is about has kept what it had. -/
theorem find?_eq_some_iff (trace : s.Trace ledger rs final) :
    final.store.find? id = some a ↔
      Latest rs id a ∨ ledger.store.find? id = some a ∧ ∀ r ∈ rs, r.id? ≠ some id := by
  induction trace with
  | alike h => simp [h.store, Receipt.not_latest_nil]
  | @cons _ _ _ _ r rs before transaction _ ih =>
    -- the first transaction tells of one id, the later ones of what comes after it
    obtain ⟨i, hi, changes⟩ := transaction.changesAt
    rw [ih, Receipt.latest_cons_iff, ← before.store]
    by_cases hid : id = i
    · subst hid
      rw [changes.here]
      simp [hi]
    · have hne : r.id? ≠ some id := fun h => hid (Option.some.inj (h.symm.trans hi))
      rw [changes.elsewhere id hid]
      simp [hne]

theorem find?_eq_some_iff_of_empty (trace : s.Trace {} rs final) :
    final.store.find? id = some a ↔ Latest rs id a := by
  have hempty : ({} : Ledger).store.find? id ≠ some a := nofun
  simp only [trace.find?_eq_some_iff, hempty, false_and, or_false]

end Trace

/-! ## Histories -/

/-- After every history, an action is stored under an id just if the latest receipt about this id is
that for storing the action. -/
theorem find?_history_eq_some_iff (s : Service World) (steps : List (Step World)) :
    (s.history steps).store.find? id = some a ↔ Latest (s.journal steps) id a :=
  (trace_history s steps).find?_eq_some_iff_of_empty

/-- Every receipt of a history is for a transaction, which starts where the receipts before lead to. -/
theorem exists_transaction (h : s.journal steps = rs ++ r :: rs') :
    ∃ middle next, s.Trace {} rs middle ∧ s.Transaction middle r next ∧
      s.Trace next rs' (s.history steps) := by
  have trace := trace_history s steps
  rw [h] at trace
  exact trace.split

/-- What is removed is what was stored last under the id. -/
theorem latest_before_removed (h : s.journal steps = rs ++ .removed id a :: rs') :
    Latest rs id a := by
  obtain ⟨middle, next, first, transaction, -⟩ := exists_transaction h
  cases transaction with
  | removed found => exact first.find?_eq_some_iff_of_empty.1 found

/-! ## New ids -/

/-- The ids that the actions of a request are to be stored under, as far as it says. -/
def Request.carriedIds : Request World → List ActionId
  | .save a | .create a => a.id.toList
  | .update id _ => [id]
  | .saveAll actions _ => actions.filterMap Action.id
  | .load path found _ =>
    match Catalog.ofFile path found with
    | .error _ => []
    | .ok catalog => catalog.actions.filterMap Action.id
  | .delete _ | .run _ _ | .getById _ | .getAll | .findByName _ | .findDistinct _ => []

/-- Every id that is given in the course of some steps is new then: it is unlike the ids given before
it, and no request until then has carried it. -/
def FreshIds (s : Service World) (steps : List (Step World)) : Prop :=
  ∀ n < (s.history steps).issued,
    (∀ m < n, s.ids m ≠ s.ids n) ∧
    ∀ first t rest, steps = first ++ t :: rest → (s.history first).issued ≤ n →
      s.ids n ∉ t.request.carriedIds

theorem target_eq_of_mem_ofSaving {result : Except ActionError Action} {given' : Action}
    {target' : Option ActionId} (h : .stored target given saved ∈ ofSaving target' given' result) :
    target = target' := by
  cases result with
  | ok saved' =>
    cases List.mem_singleton.1 h
    rfl
  | error e => exact absurd h List.not_mem_nil

theorem eq_of_mem_ofRemoving {result : Except ActionError Action} {i : ActionId}
    (h : r ∈ ofRemoving i result) : ∃ a, r = .removed i a := by
  cases result with
  | ok a => exact ⟨a, List.mem_singleton.1 h⟩
  | error e => exact absurd h List.not_mem_nil

theorem mem_carriedIds_of_mem_ofSavingAll {actions : List Action}
    {items : List (Except ActionError Action)}
    (h : .stored (some id) given saved ∈ ofSavingAll actions items) :
    id ∈ actions.filterMap Action.id := by
  obtain ⟨⟨a, item⟩, hzip, hmem⟩ := List.mem_flatMap.1 h
  exact List.mem_filterMap.2 ⟨a, (List.of_mem_zip hzip).1, (target_eq_of_mem_ofSaving hmem).symm⟩

/-- An id that a receipt says was asked for has been carried by the request. -/
theorem mem_carriedIds_of_mem_receipts {request : Request World}
    (h : .stored (some id) given saved ∈ s.receipts ledger request) : id ∈ request.carriedIds := by
  cases request with
  | save a =>
    rw [Request.carriedIds, ← target_eq_of_mem_ofSaving h]
    exact List.mem_singleton.2 rfl
  | create a => exact absurd (target_eq_of_mem_ofSaving h) (Option.some_ne_none id)
  | update i a => exact List.mem_singleton.2 (Option.some.inj (target_eq_of_mem_ofSaving h))
  | delete i =>
    obtain ⟨a, hremoved⟩ := eq_of_mem_ofRemoving h
    cases hremoved
  | saveAll actions polls => exact mem_carriedIds_of_mem_ofSavingAll h
  | load path found polls =>
    rw [receipts] at h
    rw [Request.carriedIds]
    cases hcatalog : Catalog.ofFile path found with
    | error fault =>
      rw [hcatalog] at h
      exact absurd h List.not_mem_nil
    | ok catalog =>
      rw [hcatalog] at h
      exact mem_carriedIds_of_mem_ofSavingAll h
  | run r world => exact absurd h List.not_mem_nil
  | getById i => exact absurd h List.not_mem_nil
  | getAll => exact absurd h List.not_mem_nil
  | findByName name => exact absurd h List.not_mem_nil
  | findDistinct names => exact absurd h List.not_mem_nil

/-- Every receipt in a journal has been given at some step, after the receipts of the steps before. -/
theorem exists_step_of_journalFrom_eq
    (h : s.journalFrom ledger steps = rs ++ r :: rs') :
    ∃ first t rest start, steps = first ++ t :: rest ∧ rs = s.journalFrom ledger first ++ start ∧
      ∃ ledger, r ∈ s.receipts ledger t.request := by
  induction steps generalizing ledger rs with
  | nil => simp [journalFrom] at h
  | cons t steps ih =>
    rw [journalFrom] at h
    -- the receipt is given at the first step, or it is in the journal of the others
    have hplace : (∃ rest, s.receipts (ledger.withOutages t.outages) t.request = rs ++ r :: rest) ∨
        ∃ rs₂, rs = s.receipts (ledger.withOutages t.outages) t.request ++ rs₂ ∧
          s.journalFrom (s.step ledger t) steps = rs₂ ++ r :: rs' := by
      rcases List.append_eq_append_iff.1 h with ⟨rs₂, hrs, hrest⟩ | ⟨rs₂, hreceipts, hrest⟩
      · exact .inr ⟨rs₂, hrs, hrest⟩
      · cases rs₂ with
        | nil => exact .inr ⟨[], by simpa using hreceipts.symm, by simpa using hrest.symm⟩
        | cons r₂ rs₂ =>
          obtain ⟨rfl, -⟩ := List.cons.inj hrest
          exact .inl ⟨rs₂, hreceipts⟩
    rcases hplace with ⟨rest, hreceipts⟩ | ⟨rs₂, rfl, hrest⟩
    · exact ⟨[], t, steps, rs, rfl, rfl, _, by rw [hreceipts]; simp⟩
    · obtain ⟨first, t', rest, start, rfl, rfl, hmem⟩ := ih hrest
      exact ⟨t :: first, t', rest, start, rfl, by rw [journalFrom, List.append_assoc], hmem⟩

/-- An action that came without an id has got one under which nothing has been stored before. -/
theorem id?_saved_ne_of_mem_before (hfresh : s.FreshIds steps) {given' saved' : Action}
    (h : s.journal steps = rs ++ .stored none given saved :: rs')
    (hmem : .stored target given' saved' ∈ rs) : saved'.id ≠ saved.id := by
  obtain ⟨middle, next, first, transaction, last⟩ := exists_transaction h
  -- the new id is the one with the number of new ids before it
  have hid : saved.id = some (s.ids middle.issued) := transaction.id_saved
  have hissued : middle.issued < (s.history steps).issued := by
    have hnext : next.issued = middle.issued + 1 := transaction.issued_eq
    have hlast := last.issued_le
    omega
  obtain ⟨hunlike, hasked⟩ := hfresh _ hissued
  obtain ⟨rs₁, rs₂, rfl⟩ := List.append_of_mem hmem
  obtain ⟨middle', next', first', transaction', between⟩ := first.split
  have hid' : saved'.id = some (target.getD (s.ids middle'.issued)) := transaction'.id_saved
  rw [hid, hid']
  intro heq
  have heq := Option.some.inj heq
  cases target with
  | none =>
    have hbetween := between.issued_le
    have hnext' : next'.issued = middle'.issued + 1 := transaction'.issued_eq
    exact hunlike middle'.issued (by omega) heq
  | some id =>
    -- the id was asked for at a step before which no more new ids had been given
    rw [List.append_assoc, List.cons_append] at h
    obtain ⟨steps₁, t, steps₂, start, hsteps, rfl, ledger, hreceipt⟩ :=
      exists_step_of_journalFrom_eq h
    have hle : (s.history steps₁).issued ≤ middle.issued := by
      rw [(trace_history s steps₁).issued_eq, first.issued_eq, List.countP_append,
        List.countP_append, journal]
      omega
    exact hasked steps₁ t steps₂ hsteps hle (heq ▸ mem_carriedIds_of_mem_receipts hreceipt)

/-- An action that came without an id has got one that no receipt before was about. -/
theorem id?_ne_of_mem_before (hfresh : s.FreshIds steps)
    (h : s.journal steps = rs ++ .stored none given saved :: rs') (hmem : r ∈ rs) :
    r.id? ≠ saved.id := by
  cases r with
  | stored target given' saved' => exact id?_saved_ne_of_mem_before hfresh h hmem
  | removed id a =>
    intro heq
    -- what has been removed had been stored before
    obtain ⟨rs₁, rs₂, rfl⟩ := List.append_of_mem hmem
    have hremoved := h
    rw [List.append_assoc, List.cons_append] at hremoved
    obtain ⟨before, target, given', after, rfl, hid, -⟩ := latest_before_removed hremoved
    have hstored : Receipt.stored target given' a ∈
        (before ++ .stored target given' a :: after) ++ .removed id a :: rs₂ := by simp
    exact id?_saved_ne_of_mem_before hfresh h hstored (hid.trans heq)

/-! ## The last write -/

/-- What is read is what was written last. After every history, an action is got by an id just if the
latest receipt about the id is that for storing it, and otherwise the id is unknown. What a request
removes is what was stored last under the id. What a request stores is, but for the fields that the
store keeps, what was given, under the id that was asked for, or else under one that nothing before
was about, if new ids are new. -/
theorem reads_see_last_write (s : Service World) (steps : List (Step World)) :
    (∀ outages id, outages.next? .findById = none →
      (∀ a, (getById id).outcome ((s.history steps).withOutages outages) = .ok a ↔
        Latest (s.journal steps) id a) ∧
      ((∀ a, ¬ Latest (s.journal steps) id a) →
        (getById id).outcome ((s.history steps).withOutages outages) = .error (.unknownId id))) ∧
    (∀ before id a after, s.journal steps = before ++ .removed id a :: after →
      Latest before id a) ∧
    ∀ before target given saved after,
      s.journal steps = before ++ .stored target given saved :: after →
        given.SameContent saved ∧ ∃ id, saved.id = some id ∧
          (target = some id ∨
            target = none ∧ (s.FreshIds steps → ∀ r ∈ before, r.id? ≠ some id)) := by
  refine ⟨?reading, fun _ _ _ _ h => latest_before_removed h, ?storing⟩
  case reading =>
    intro outages id hup
    have hget : (getById id).outcome ((s.history steps).withOutages outages) =
        ((s.history steps).store.find? id).elim (.error (.unknownId id)) .ok := outcome_getById hup
    constructor
    · intro a
      rw [← find?_history_eq_some_iff, hget]
      cases (s.history steps).store.find? id <;> simp
    · intro hnone
      cases hfind : (s.history steps).store.find? id with
      | none => rw [hget, hfind, Option.elim_none]
      | some a => exact absurd ((find?_history_eq_some_iff s steps).1 hfind) (hnone a)
  case storing =>
    intro before target given saved after h
    obtain ⟨middle, next, -, transaction, -⟩ := exists_transaction h
    have hid := transaction.id_saved
    refine ⟨transaction.sameContent, _, hid, ?_⟩
    cases target with
    | some id => exact .inl rfl
    | none => exact .inr ⟨rfl, fun hfresh r hr => hid ▸ id?_ne_of_mem_before hfresh h hr⟩

/-- Two actions are stored, the second without an id of its own; the first is removed, and the second
is replaced, which is not answered the first time. -/
def echoSteps : List (Step Nat) :=
  [{ request := .save { echoAction with id := some ⟨"0"⟩, name := "echo first" } },
    { request := .save echoAction },
    { request := .delete ⟨"0"⟩ },
    { outages := Outages.none.arm .save "disk full"
      request := .update ⟨"1"⟩ { echoAction with name := "echo in vain" } },
    { request := .update ⟨"1"⟩ { echoAction with name := "echo again" } }]

/-- The only id that is given is not asked for until then. -/
theorem freshIds_echoSteps : echoService.FreshIds echoSteps := by
  have hissued : (echoService.history echoSteps).issued = 1 := by decide +kernel
  have htwo : (echoService.history (echoSteps.take 2)).issued = 1 := by decide +kernel
  intro n hn
  obtain rfl : n = 0 := by omega
  refine ⟨fun m hm => by omega, fun first t rest heq hle => ?_⟩
  -- the id is given at the second step, so only the first two steps could have asked for it before
  rcases first with _ | ⟨t₁, _ | ⟨t₂, first⟩⟩
  · obtain ⟨rfl, -⟩ := List.cons.inj heq
    decide
  · obtain ⟨-, heq⟩ := List.cons.inj heq
    obtain ⟨rfl, -⟩ := List.cons.inj heq
    decide
  · obtain ⟨h₁, heq⟩ := List.cons.inj heq
    obtain ⟨h₂, -⟩ := List.cons.inj heq
    have hlater := (trace_foldl echoService (echoService.history (echoSteps.take 2)) first).issued_le
    rw [← h₁, ← h₂] at hle
    exact absurd (hlater.trans hle) (by rw [htwo]; omega)

/-- The id that is given is new, and what is read under it is the last replacement that was
answered. -/
theorem reads_see_last_write_echo :
    echoService.FreshIds echoSteps ∧
    (∃ before saved after, echoService.journal echoSteps =
      before ++ .stored none echoAction saved :: after ∧ before.length = 1 ∧
        ∀ r ∈ before, r.id? ≠ some ⟨"1"⟩) ∧
    ∃ a, (getById ⟨"1"⟩).outcome ((echoService.history echoSteps).withOutages .none) = .ok a ∧
      a.name = "echo again" := by
  -- nothing is in the journal of the replacement that was not answered
  obtain ⟨s₁, s₂, s₃, s₄, hjournal, hid₂, hid₄, hname⟩ :
      ∃ s₁ s₂ s₃ s₄, echoService.journal echoSteps =
        [.stored (some ⟨"0"⟩) { echoAction with id := some ⟨"0"⟩, name := "echo first" } s₁,
          .stored none echoAction s₂, .removed ⟨"0"⟩ s₃,
          .stored (some ⟨"1"⟩) { echoAction with name := "echo again" } s₄] ∧
        s₂.id = some ⟨"1"⟩ ∧ s₄.id = some ⟨"1"⟩ ∧ s₄.name = "echo again" :=
    ⟨_, _, _, _, rfl, rfl, rfl, rfl⟩
  obtain ⟨hreads, -, hstores⟩ := reads_see_last_write echoService echoSteps
  refine ⟨freshIds_echoSteps, ⟨[_], s₂, _, hjournal, rfl, ?_⟩, s₄, ?_, hname⟩
  · obtain ⟨-, id, hid, hnew⟩ := hstores [_] none echoAction s₂ _ hjournal
    obtain rfl : id = ⟨"1"⟩ := Option.some.inj (hid.symm.trans hid₂)
    rcases hnew with hasked | ⟨-, hnew⟩
    · exact absurd hasked.symm (Option.some_ne_none _)
    · exact hnew freshIds_echoSteps
  · exact ((hreads .none ⟨"1"⟩ rfl).1 s₄).2 ⟨[_, _, _], some ⟨"1"⟩, _, [], hjournal, hid₄, by simp⟩

end ActionBook.Service
