import ActionBook.Proofs.Service.Acceptance
import ActionBook.Proofs.Service.Seeding

/-!
# `Service.Resaving`: storing again what was read

A stored action carries its id, its own name, and derived fields that follow from its content, and what
replaces it keeps the time of its creation. So when it is stored again as it is, all that changes is the
time of its last update (`exists_save_stored`). The same holds along a list of stored actions, each of
which is still there when its turn comes (`Resaved`, `resaving_changes_times_only`).
-/

namespace ActionBook

namespace Action

variable {a : Action}

/-- The action with another time of its last update. -/
def touched (a : Action) (now : Timestamp) : Action := { a with updatedAt := some now }

theorem refreshed_touched (a : Action) (now : Timestamp) :
    (a.touched now).refreshed = a.refreshed.touched now := rfl

end Action

namespace Service

open Operation

variable {World : Type} {s : Service World} {x : Action} {i : ActionId} {before : List Action}
  {ledger middle final : Ledger}

/-! ## One action -/

/-- A complete action that replaces itself is completed to itself, as of now. -/
theorem completed_stored (h : x.Complete) (s : Service World) (ledger : Ledger) :
    s.completed ledger (some x) x = x.touched (s.clock ledger.written) := by
  show (x.touched (s.clock ledger.written)).refreshed = _
  rw [Action.refreshed_touched, h.refreshed]

/-- A stored action can be stored again, and is then as it was but for the time of its update. -/
theorem exists_save_stored (s : Service World) (hup : ledger.Answering)
    (hconsistent : ledger.store.Consistent) (hx : ledger.store.find? i = some x) :
    ∃ final, s.save x ledger = .ok (x.touched (s.clock ledger.written)) final ∧
      final.Answering ∧ final.store.Consistent ∧ final.written = ledger.written + 1 ∧
      ledger.store.ChangesAt final.store i (some (x.touched (s.clock ledger.written))) := by
  have hid : x.id = some i := hconsistent.id hx
  have hcomplete := hconsistent.complete hx
  have hfree : ¬ NameTaken ledger.store x := not_nameTaken_of_find? hconsistent hx hid rfl
  have hobjection : objection? ledger.store x false = none :=
    objection?_of_free hcomplete.name nofun hfree
  obtain ⟨saved, final, hsave, hfinal, wrote⟩ := exists_persist_eq_ok (s := s) hup hobjection
  have accepted := (of_persist_eq_ok hsave).1
  have hsaved : saved = x.touched (s.clock ledger.written) := by
    have hprevious : ledger.store.predecessor? x = some x := by
      rw [Store.predecessor?, hid, Option.bind_some, hx]
    rw [wrote.saved_eq, hprevious, completed_stored hcomplete]
  subst hsaved
  have hchanges := wrote.changesAt
  rw [idFor, hid, Option.getD_some] at hchanges
  exact ⟨final, hsave, hfinal, wrote.consistent accepted hconsistent, wrote.written, hchanges⟩

/-- To replace a stored action by itself is to store it again. -/
theorem update_stored (s : Service World) (hup : ledger.Answering)
    (hconsistent : ledger.store.Consistent) (hx : ledger.store.find? i = some x) :
    s.update i x ledger = s.save x ledger := by
  have hname := (hconsistent.complete hx).name
  have hself : { x with id := some i } = x := by rw [← hconsistent.id hx]
  rw [update_eq hup, if_neg (by simp [hname]), if_neg (by simp [hx]), hself]

/-! ## Many actions -/

/-- Some stored actions, each of which is there once, have been stored again one after the other: each
has got the time of its turn as that of its last update, and that is all. -/
structure Resaved (s : Service World) (ledger : Ledger) (before : List Action) (middle : Ledger) :
    Prop where
  answering : middle.Answering
  consistent : middle.store.Consistent
  written : middle.written = ledger.written + before.length
  find? : ∀ i, middle.store.find? i = (ledger.store.find? i).map fun x =>
    if x ∈ before then x.touched (s.clock (ledger.written + before.idxOf x)) else x

/-- One more stored action is stored again. -/
theorem Resaved.concat (h : s.Resaved ledger before middle) (hconsistent : ledger.store.Consistent)
    (hx : ledger.store.find? i = some x) (hnew : x ∉ before) :
    ∃ final, s.save x middle = .ok (x.touched (s.clock (ledger.written + before.length))) final ∧
      s.Resaved ledger (before ++ [x]) final := by
  -- its turn has not come, so it is still there as it was
  have hmiddle : middle.store.find? i = some x := by
    rw [h.find?, hx, Option.map_some, if_neg hnew]
  obtain ⟨final, hsave, hup, hfinal, hwritten, hchanges⟩ :=
    exists_save_stored s h.answering h.consistent hmiddle
  rw [h.written] at hsave hwritten hchanges
  refine ⟨final, hsave, hup, hfinal, ?_, fun j => ?_⟩
  · rw [hwritten, List.length_append, List.length_singleton]
    omega
  by_cases hj : j = i
  · subst hj
    rw [hchanges.here, hx, Option.map_some, if_pos (by simp), List.idxOf_append_of_notMem hnew,
      List.idxOf_cons_self, Nat.add_zero]
  · rw [hchanges.elsewhere j hj, h.find?]
    refine Option.map_congr fun y hy => ?_
    -- what is kept under another id is another action
    have hne : y ≠ x := by
      rintro rfl
      exact hj (Option.some.inj ((hconsistent.id hy).symm.trans (hconsistent.id hx)))
    by_cases hmem : y ∈ before
    · rw [if_pos hmem, if_pos (List.mem_append_left _ hmem), List.idxOf_append_of_mem hmem]
    · rw [if_neg hmem, if_neg (by simp [hmem, hne])]

/-- Whatever of the stored actions is stored again, and in whatever order, each succeeds. -/
theorem resaved_afterAll (hup : ledger.Answering) (hconsistent : ledger.store.Consistent)
    (hstored : ∀ x ∈ before, ∃ i, ledger.store.find? i = some x) (hnodup : before.Nodup) :
    s.Resaved ledger before (s.afterAll before ledger) ∧
      s.outcomes before ledger =
        before.mapIdx fun k x => .ok (x.touched (s.clock (ledger.written + k))) := by
  induction before using List.reverseRecOn with
  | nil => exact ⟨⟨hup, hconsistent, rfl, by simp [afterAll]⟩, rfl⟩
  | append_singleton before x ih =>
    obtain ⟨hbefore, -, hnew⟩ := List.nodup_append.1 hnodup
    obtain ⟨hresaved, houtcomes⟩ := ih (fun y hy => hstored y (by simp [hy])) hbefore
    obtain ⟨i, hx⟩ := hstored x (by simp)
    have hnew : x ∉ before := fun hmem => hnew x hmem x (by simp) rfl
    obtain ⟨final, hsave, hfinal⟩ := hresaved.concat hconsistent hx hnew
    constructor
    · rw [afterAll_append, afterAll, List.foldl_cons, List.foldl_nil, after, hsave]
      exact hfinal
    · rw [outcomes_append, outcomes, outcomes, outcome, hsave, houtcomes, List.mapIdx_concat]

/-! ## The main statement -/

/-- Storing again what was read does no harm. In every state that requests lead to, if the repository
answers: to save a stored action as it is, or to replace it by itself, succeeds and changes nothing but
the time of its last update; and so does storing all actions as they are listed, for each of them, in
the order of the list. -/
theorem resaving_changes_times_only (s : Service World) (hreach : s.Reachable ledger)
    (hup : ledger.Answering) :
    (∀ i x, ledger.store.find? i = some x → ∃ final,
      s.save x ledger = .ok (x.touched (s.clock ledger.written)) final ∧
      s.update i x ledger = .ok (x.touched (s.clock ledger.written)) final ∧
      ledger.store.ChangesAt final.store i (some (x.touched (s.clock ledger.written)))) ∧
    ∃ all, getAll ledger = .ok all ledger ∧
      (s.saveAll all none ledger).1 =
        all.mapIdx (fun k x => .ok (x.touched (s.clock (ledger.written + k)))) ∧
      ∀ i, (s.saveAll all none ledger).2.store.find? i =
        (ledger.store.find? i).map fun x =>
          x.touched (s.clock (ledger.written + all.idxOf x)) := by
  have hconsistent := hreach.consistent
  refine ⟨fun i x hx => ?one, ledger.store.all, ofCall_read_eq_ok hup .findAll _, ?all⟩
  case one =>
    obtain ⟨final, hsave, -, -, -, hchanges⟩ := exists_save_stored s hup hconsistent hx
    exact ⟨final, hsave, (update_stored s hup hconsistent hx).trans hsave, hchanges⟩
  case all =>
    have hstored : ∀ x ∈ ledger.store.all, ∃ i, ledger.store.find? i = some x := by
      intro x hx
      exact Store.mem_actions_iff.1 (Store.mem_all_iff.1 hx)
    obtain ⟨hresaved, houtcomes⟩ :=
      resaved_afterAll (s := s) hup hconsistent hstored hconsistent.ascending_all.nodup
    have hok : ∀ item ∈ s.outcomes ledger.store.all ledger, item.isOk = true := by
      intro item hitem
      rw [houtcomes, List.mem_mapIdx] at hitem
      obtain ⟨k, hk, rfl⟩ := hitem
      rfl
    rw [saveAll_eq_of_isOk hok]
    refine ⟨houtcomes, fun i => ?_⟩
    rw [hresaved.find?]
    refine Option.map_congr fun x hx => ?_
    exact if_pos (Store.mem_all_iff.2 (Store.mem_actions_iff.2 ⟨i, hx⟩))

theorem isTime_ticking (n : Nat) : IsTime 12 0 (n % 60) 0 := by
  have hsecond : n % 60 < 60 := Nat.mod_lt _ (by decide)
  exact ⟨by decide, by decide, hsecond, by decide, nofun⟩

/-- The service with a clock that goes on by a second with every write. -/
def tickingService : Service Nat :=
  { echoService with
    clock := fun n => ⟨(echoService.clock n).date, 12, 0, n % 60, 0, isTime_ticking n⟩ }

/-- Two actions have been stored with that service, of which the second is first by name. -/
def tickingPair : Ledger :=
  tickingService.history [{ request := .save echoAction },
    { request := .save { echoAction with id := some ⟨"2"⟩, name := "all users" } }]

/-- Storing the second action again leaves the first as it is, and storing both again gives the times
of the third and the fourth write in the order of their names. -/
theorem resaving_changes_times_only_ticking :
    tickingService.Reachable tickingPair ∧ tickingPair.Answering ∧
    (∃ x saved final, tickingPair.store.find? ⟨"2"⟩ = some x ∧
      tickingService.save x tickingPair = .ok saved final ∧
      saved.updatedAt = some (tickingService.clock 2) ∧ saved.createdAt = x.createdAt ∧
      final.store.find? ⟨"1"⟩ = tickingPair.store.find? ⟨"1"⟩) ∧
    ∃ all, getAll tickingPair = .ok all tickingPair ∧ all.length = 2 ∧
      (tickingService.saveAll all none tickingPair).1 =
        all.mapIdx fun k x => .ok (x.touched (tickingService.clock (2 + k))) := by
  have hreach : tickingService.Reachable tickingPair := reachable_history _ _
  have hup : tickingPair.Answering := by
    funext call
    cases call <;> rfl
  obtain ⟨hone, all, hall, hitems, -⟩ := resaving_changes_times_only tickingService hreach hup
  have hstored : ∃ x, tickingPair.store.find? ⟨"2"⟩ = some x := ⟨_, rfl⟩
  obtain ⟨x, hx⟩ := hstored
  obtain ⟨final, hsave, -, hchanges⟩ := hone _ x hx
  refine ⟨hreach, hup, ⟨x, _, final, hx, hsave, rfl, rfl, ?_⟩, all, hall, ?_, hitems⟩
  · exact hchanges.elsewhere _ (by decide)
  · have hlisted : getAll tickingPair = .ok tickingPair.store.all tickingPair :=
      ofCall_read_eq_ok hup .findAll _
    rw [hlisted] at hall
    cases hall
    rw [Store.all, (Store.perm_byName _).length_eq]
    rfl

end Service

end ActionBook
