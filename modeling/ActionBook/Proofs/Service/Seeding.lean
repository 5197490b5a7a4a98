import ActionBook.Proofs.Service.Acceptance
import Mathlib.Data.List.Induction

/-!
# `Service.Seeding`: storing many new actions

Actions without ids, as a catalogue has them, are all new. While the repository answers, they are
stored one after the other for as long as their names are not blank and differ from those of all
actions that were stored before and of each other (`Seedable`). So in whatever order they come, the
same is stored, and the first action in the way is where storing them ends (`saveAll_seeds`).
-/

namespace ActionBook.Service

open Operation

variable {World : Type} {s : Service World} {ledger final : Ledger} {store : Store} {a : Action}
  {actions others before : List Action}

/-! ## Names and ids -/

/-- The names are not blank, and none is there twice or already stored. -/
structure Seedable (store : Store) (actions : List Action) : Prop where
  named : ∀ a ∈ actions, Text.isBlankText a.name = false
  distinct : (actions.map Action.name).Nodup
  free : ∀ a ∈ actions, ∀ b ∈ store.actions, b.name ≠ a.name

/-- After some others, an action is in the way of storing it: its name is blank, or already there. -/
def Offends (store : Store) (before : List Action) (a : Action) : Prop :=
  Text.isBlankText a.name = true ∨ ∃ b ∈ store.actions ++ before, b.name = a.name

/-- What an action is refused for that is in the way. -/
def offence (a : Action) : ActionError :=
  if Text.isBlankText a.name then .invalidParameter "action name must not be empty"
  else .duplicateName a.name

/-- The next ids to be given, as many as are needed, are new. -/
structure NewIds (s : Service World) (ledger : Ledger) (count : Nat) : Prop where
  free : ∀ k < count, ledger.store.find? (s.ids (ledger.issued + k)) = none
  distinct : ∀ j k, j < k → k < count → s.ids (ledger.issued + j) ≠ s.ids (ledger.issued + k)

/-- A new action as it is stored after `k` other new ones. -/
def seeded (s : Service World) (ledger : Ledger) (k : Nat) (a : Action) : Action :=
  { a with
    id := some (s.ids (ledger.issued + k))
    createdAt := some (s.clock (ledger.written + k))
    updatedAt := some (s.clock (ledger.written + k)) }.refreshed

/-- What is stored of some new actions. -/
def seededEntries (s : Service World) (ledger : Ledger) (actions : List Action) :
    List (ActionId × Action) :=
  actions.mapIdx fun k a => (s.ids (ledger.issued + k), s.seeded ledger k a)

theorem NewIds.mono {n m : Nat} (h : s.NewIds ledger n) (hle : m ≤ n) : s.NewIds ledger m :=
  ⟨fun k hk => h.free k (by omega), fun j k hjk hk => h.distinct j k hjk (by omega)⟩

theorem not_offends_iff :
    ¬ Offends store before a ↔ Text.isBlankText a.name = false ∧
      ∀ b ∈ store.actions ++ before, b.name ≠ a.name := by
  unfold Offends
  rw [not_or, Bool.not_eq_true, not_exists]
  simp only [not_and]

theorem seedable_concat_iff :
    Seedable store (before ++ [a]) ↔ Seedable store before ∧ ¬ Offends store before a := by
  rw [not_offends_iff]
  constructor
  · rintro ⟨hnamed, hdistinct, hfree⟩
    rw [List.map_append, List.nodup_append] at hdistinct
    refine ⟨⟨fun b hb => hnamed b (by simp [hb]), hdistinct.1, fun b hb => hfree b (by simp [hb])⟩,
      hnamed a (by simp), fun b hb => ?_⟩
    rcases List.mem_append.1 hb with hb | hb
    · exact hfree a (by simp) b hb
    · exact hdistinct.2.2 b.name (List.mem_map_of_mem hb) a.name (by simp)
  · rintro ⟨⟨hnamed, hdistinct, hfree⟩, hname, hother⟩
    refine ⟨fun b hb => ?_, ?_, fun b hb => ?_⟩
    · rcases List.mem_append.1 hb with hb | hb
      · exact hnamed b hb
      · rwa [List.mem_singleton.1 hb]
    · rw [List.map_append, List.nodup_append]
      refine ⟨hdistinct, by simp, fun x hx y hy => ?_⟩
      obtain ⟨b, hb, rfl⟩ := List.mem_map.1 hx
      obtain rfl : y = a.name := by simpa using hy
      exact hother b (by simp [hb])
    · rcases List.mem_append.1 hb with hb | hb
      · exact hfree b hb
      · rw [List.mem_singleton.1 hb]
        exact fun c hc => hother c (by simp [hc])

theorem Seedable.perm (h : Seedable store actions) (hperm : others.Perm actions) :
    Seedable store others :=
  ⟨fun a ha => h.named a (hperm.mem_iff.1 ha), (hperm.map Action.name).nodup_iff.2 h.distinct,
    fun a ha => h.free a (hperm.mem_iff.1 ha)⟩

/-- All actions can be stored, or there is a first one in the way. -/
theorem seedable_or_exists_offends (store : Store) (actions : List Action) :
    Seedable store actions ∨ ∃ before a after, actions = before ++ a :: after ∧
      Seedable store before ∧ Offends store before a := by
  induction actions using List.reverseRecOn with
  | nil => exact .inl ⟨by simp, by simp, by simp⟩
  | append_singleton before a ih =>
    rcases ih with hbefore | ⟨before, b, after, rfl, hbefore, hoffends⟩
    · by_cases hoffends : Offends store before a
      · exact .inr ⟨before, a, [], rfl, hbefore, hoffends⟩
      · exact .inl (seedable_concat_iff.2 ⟨hbefore, hoffends⟩)
    · exact .inr ⟨before, b, after ++ [a], by simp, hbefore, hoffends⟩

/-! ## One new action -/

/-- What is found in the store by the name of an action without an id is another action. -/
theorem objection?_eq_offence (hconsistent : store.Consistent) (hid : a.id = none)
    (h : Offends store [] a) : objection? store a false = some (offence a) := by
  unfold offence
  by_cases hname : Text.isBlankText a.name = true
  · rw [if_pos hname]
    exact objection?_of_blank hname
  · rw [if_neg hname]
    obtain ⟨b, hb, hbname⟩ := h.resolve_left hname
    rw [List.append_nil] at hb
    obtain ⟨i, hi⟩ := Store.mem_actions_iff.1 hb
    have hother : b.id ≠ a.id := by
      rw [hid, hconsistent.id hi]
      exact Option.some_ne_none i
    exact objection?_of_taken hconsistent (by simpa using hname) nofun ⟨b, hb, hother, hbname⟩

theorem objection?_eq_none (h : ¬ Offends store [] a) : objection? store a false = none := by
  obtain ⟨hname, hfree⟩ := not_offends_iff.1 h
  refine objection?_of_free hname nofun ?_
  rintro ⟨b, hb, -, hbname⟩
  exact hfree b (by simpa using hb) hbname

/-- An action in the way is refused, and everything stays as it is. -/
theorem save_eq_error (hup : ledger.Answering) (hconsistent : ledger.store.Consistent)
    (hid : a.id = none) (h : Offends ledger.store [] a) :
    s.save a ledger = .error (offence a) ledger :=
  persist_eq_error hup (objection?_eq_offence hconsistent hid h)

/-! ## Many new actions -/

/-- The ledger after some new actions have been stored. -/
structure Seeded (s : Service World) (ledger : Ledger) (actions : List Action) (final : Ledger) :
    Prop where
  answering : final.Answering
  consistent : final.store.Consistent
  entries : final.store.entries = ledger.store.entries ++ s.seededEntries ledger actions
  issued : final.issued = ledger.issued + actions.length
  written : final.written = ledger.written + actions.length

theorem seededEntries_concat (s : Service World) (ledger : Ledger) (actions : List Action)
    (a : Action) : s.seededEntries ledger (actions ++ [a]) = s.seededEntries ledger actions ++
      [(s.ids (ledger.issued + actions.length), s.seeded ledger actions.length a)] := by
  simp [seededEntries, List.mapIdx_append]

theorem mem_seededEntries_iff {e : ActionId × Action} :
    e ∈ s.seededEntries ledger actions ↔ ∃ k, ∃ h : k < actions.length,
      e = (s.ids (ledger.issued + k), s.seeded ledger k actions[k]) := by
  rw [seededEntries, List.mem_mapIdx]
  simp only [eq_comm]

/-- What does not depend on the fields that the store keeps is the same of what is stored. -/
theorem map_seededEntries {β : Type} {f : Action → β}
    (hf : ∀ k a, f (s.seeded ledger k a) = f a) (actions : List Action) :
    ((s.seededEntries ledger actions).map Prod.snd).map f = actions.map f := by
  induction actions using List.reverseRecOn with
  | nil => rfl
  | append_singleton before a ih =>
    rw [seededEntries_concat, List.map_append, List.map_append, List.map_append, ih,
      List.map_singleton, List.map_singleton, List.map_singleton, hf]

theorem outcomes_append (s : Service World) (actions others : List Action) (ledger : Ledger) :
    s.outcomes (actions ++ others) ledger =
      s.outcomes actions ledger ++ s.outcomes others (s.afterAll actions ledger) := by
  induction actions generalizing ledger with
  | nil => rfl
  | cons a rest ih => rw [List.cons_append, outcomes, ih, outcomes, List.cons_append]; rfl

theorem afterAll_append (s : Service World) (actions others : List Action) (ledger : Ledger) :
    s.afterAll (actions ++ others) ledger = s.afterAll others (s.afterAll actions ledger) :=
  List.foldl_append

namespace Seeded

variable {middle : Ledger}

theorem actions_eq (h : s.Seeded ledger before middle) : middle.store.actions =
    ledger.store.actions ++ (s.seededEntries ledger before).map Prod.snd := by
  rw [Store.actions, h.entries, List.map_append, Store.actions]

/-- After some new actions, another one is in the way just if these or the actions before have its
name. -/
theorem offends_iff (h : s.Seeded ledger before middle) :
    Offends middle.store [] a ↔ Offends ledger.store before a := by
  have hnames : middle.store.actions.map Action.name =
      (ledger.store.actions ++ before).map Action.name := by
    rw [h.actions_eq, List.map_append, map_seededEntries (fun _ _ => rfl), List.map_append]
  unfold Offends
  rw [List.append_nil, ← List.mem_map, ← List.mem_map, hnames]

/-- The next id is new. -/
theorem find?_eq_none (h : s.Seeded ledger before middle)
    (hnew : s.NewIds ledger (before.length + 1)) :
    middle.store.find? (s.ids middle.issued) = none := by
  rw [Option.eq_none_iff_forall_ne_some]
  intro b hb
  rw [Store.find?_eq_some_iff, h.entries, h.issued] at hb
  rcases List.mem_append.1 hb with hb | hb
  · rw [← Store.find?_eq_some_iff, hnew.free before.length (by omega)] at hb
    nomatch hb
  · obtain ⟨k, hk, heq⟩ := mem_seededEntries_iff.1 hb
    exact hnew.distinct k before.length hk (by omega) (congrArg Prod.fst heq).symm

/-- One more new action is stored, if it is not in the way. -/
theorem concat (h : s.Seeded ledger before middle) (hid : a.id = none)
    (hnew : s.NewIds ledger (before.length + 1)) (hoffends : ¬ Offends ledger.store before a) :
    ∃ final, s.save a middle = .ok (s.seeded ledger before.length a) final ∧
      s.Seeded ledger (before ++ [a]) final := by
  have hobjection : objection? middle.store a false = none :=
    objection?_eq_none fun hoff => hoffends (h.offends_iff.1 hoff)
  obtain ⟨saved, final, hsave, hup, wrote⟩ := exists_persist_eq_ok (s := s) h.answering hobjection
  have accepted := (of_persist_eq_ok hsave).1
  have hidFor : s.idFor middle a = s.ids (ledger.issued + before.length) := by
    rw [idFor, hid, Option.getD_none, h.issued]
  have hsaved : saved = s.seeded ledger before.length a := by
    have hprevious : middle.store.predecessor? a = none := by
      rw [Store.predecessor?, hid]
      rfl
    rw [wrote.saved_eq, hprevious]
    simp only [completed, seeded, hid, Option.getD_none, h.issued, h.written]
  subst hsaved
  refine ⟨final, hsave, hup, wrote.consistent accepted h.consistent, ?_, ?_, ?_⟩
  · have hfree := h.find?_eq_none hnew
    rw [h.issued, ← hidFor] at hfree
    rw [wrote.store, Store.entries_put_of_find?_eq_none hfree, h.entries, seededEntries_concat,
      hidFor, List.append_assoc]
  · rw [wrote.issued, hid, h.issued, List.length_append]
    rfl
  · rw [wrote.written, h.written, List.length_append]
    rfl

end Seeded

/-- New actions that can all be stored come back as they are stored, one after the other. -/
theorem seeded_afterAll (hup : ledger.Answering) (hconsistent : ledger.store.Consistent)
    (hids : ∀ a ∈ before, a.id = none) (hnew : s.NewIds ledger before.length)
    (hseedable : Seedable ledger.store before) :
    s.Seeded ledger before (s.afterAll before ledger) ∧
      s.outcomes before ledger = (s.seededEntries ledger before).map fun e => .ok e.2 := by
  induction before using List.reverseRecOn with
  | nil => exact ⟨⟨hup, hconsistent, by simp [afterAll, seededEntries], rfl, rfl⟩, rfl⟩
  | append_singleton before a ih =>
    rw [List.length_append] at hnew
    obtain ⟨hbefore, hoffends⟩ := seedable_concat_iff.1 hseedable
    obtain ⟨hseeded, houtcomes⟩ := ih (fun b hb => hids b (by simp [hb]))
      (hnew.mono (Nat.le_add_right _ _)) hbefore
    obtain ⟨final, hsave, hfinal⟩ := hseeded.concat (hids a (by simp)) hnew hoffends
    constructor
    · rw [afterAll_append, afterAll, List.foldl_cons, List.foldl_nil, after, hsave]
      exact hfinal
    · rw [outcomes_append, outcomes, outcomes, outcome, hsave, houtcomes, seededEntries_concat,
        List.map_append]
      rfl

/-! ## The stream -/

theorem firstFailure_eq_length (h : ∀ item ∈ s.outcomes actions ledger, item.isOk = true) :
    s.firstFailure actions ledger = actions.length := by
  rw [firstFailure, ← s.length_outcomes actions ledger, List.findIdx_eq_length]
  intro item hitem
  simp [h item hitem]

theorem isOk_of_mem_map_ok {entries : List (ActionId × Action)} :
    ∀ item ∈ entries.map (fun e => (.ok e.2 : Except ActionError Action)), item.isOk = true := by
  intro item hitem
  obtain ⟨e, -, rfl⟩ := List.mem_map.1 hitem
  rfl

/-- If all actions can be stored, the stream goes to their end. -/
theorem saveAll_eq_of_isOk (h : ∀ item ∈ s.outcomes actions ledger, item.isOk = true) :
    s.saveAll actions none ledger = (s.outcomes actions ledger, s.afterAll actions ledger) := by
  have htried : s.due actions none ledger = actions.length := by
    rw [due, Option.elim_none, tried, firstFailure_eq_length h]
    omega
  rw [saveAll_eq, htried, List.take_length]

/-- Where an action cannot be stored, the stream ends. -/
theorem saveAll_eq_of_error {after : List Action} {e : ActionError}
    (h : ∀ item ∈ s.outcomes before ledger, item.isOk = true)
    (herror : s.save a (s.afterAll before ledger) = .error e final) :
    s.saveAll (before ++ a :: after) none ledger =
      (s.outcomes before ledger ++ [.error e], final) := by
  have hfirst : s.firstFailure (before ++ a :: after) ledger = before.length := by
    have hbefore := firstFailure_eq_length h
    rw [firstFailure] at hbefore
    rw [firstFailure, outcomes_append, List.findIdx_append, hbefore, s.length_outcomes,
      if_neg (Nat.lt_irrefl _), outcomes, outcome, herror]
    simp [List.findIdx_cons, Except.isOk, Except.toBool]
  have htried : s.due (before ++ a :: after) none ledger = (before ++ [a]).length := by
    rw [due, Option.elim_none, tried, hfirst, List.length_append, List.length_append]
    simp
  have htake : (before ++ a :: after).take (before ++ [a]).length = before ++ [a] := by
    rw [List.append_cons before a after]
    exact List.take_left
  have houtcome : s.outcomes [a] (s.afterAll before ledger) =
      [(s.save a).outcome (s.afterAll before ledger)] := rfl
  have hafter : s.afterAll [a] (s.afterAll before ledger) =
      (s.save a).after (s.afterAll before ledger) := rfl
  rw [saveAll_eq, htried, htake, outcomes_append, afterAll_append, houtcome, hafter, outcome,
    Operation.after, herror]

theorem saveAll_of_seedable (hup : ledger.Answering) (hconsistent : ledger.store.Consistent)
    (hids : ∀ a ∈ actions, a.id = none) (hnew : s.NewIds ledger actions.length)
    (hseedable : Seedable ledger.store actions) :
    s.Seeded ledger actions (s.saveAll actions none ledger).2 ∧
      (s.saveAll actions none ledger).1 =
        (s.seededEntries ledger actions).map fun e => .ok e.2 := by
  obtain ⟨hseeded, houtcomes⟩ := seeded_afterAll hup hconsistent hids hnew hseedable
  have hall : ∀ item ∈ s.outcomes actions ledger, item.isOk = true := by
    rw [houtcomes]
    exact isOk_of_mem_map_ok
  rw [saveAll_eq_of_isOk hall]
  exact ⟨hseeded, houtcomes⟩

theorem saveAll_of_offends {after : List Action} (hup : ledger.Answering)
    (hconsistent : ledger.store.Consistent) (hids : ∀ b ∈ before ++ a :: after, b.id = none)
    (hnew : s.NewIds ledger before.length) (hseedable : Seedable ledger.store before)
    (hoffends : Offends ledger.store before a) :
    s.Seeded ledger before (s.saveAll (before ++ a :: after) none ledger).2 ∧
      (s.saveAll (before ++ a :: after) none ledger).1 =
        (s.seededEntries ledger before).map (fun e => .ok e.2) ++ [.error (offence a)] := by
  obtain ⟨hseeded, houtcomes⟩ := seeded_afterAll hup hconsistent
    (fun b hb => hids b (by simp [hb])) hnew hseedable
  have hall : ∀ item ∈ s.outcomes before ledger, item.isOk = true := by
    rw [houtcomes]
    exact isOk_of_mem_map_ok
  have herror : s.save a (s.afterAll before ledger) =
      .error (offence a) (s.afterAll before ledger) :=
    save_eq_error hseeded.answering hseeded.consistent (hids a (by simp))
      (hseeded.offends_iff.2 hoffends)
  rw [saveAll_eq_of_error hall herror, houtcomes]
  exact ⟨hseeded, rfl⟩

/-! ## The main statement -/

/-- What an action is apart from what the store keeps for it. -/
def content (a : Action) : String × String × Option Datasource × RequestTemplate :=
  (a.name, a.plugin, a.datasource, a.template)

theorem content_seeded (k : Nat) (a : Action) : content (s.seeded ledger k a) = content a := rfl

namespace Seeded

/-- After some new actions, they and the actions before are listed. -/
theorem perm_all (h : s.Seeded ledger actions final) :
    final.store.all.Perm
      (ledger.store.actions ++ (s.seededEntries ledger actions).map Prod.snd) :=
  h.actions_eq ▸ Store.perm_byName final.store.actions

/-- In whatever order some new actions come, the same is listed but for what the store keeps. -/
theorem map_content_all_eq {final' : Ledger} (h : s.Seeded ledger actions final)
    (h' : s.Seeded ledger others final') (hperm : others.Perm actions) :
    final'.store.all.map content = final.store.all.map content := by
  have hcontents {actions : List Action} {final : Ledger} (h : s.Seeded ledger actions final) :
      (final.store.all.map content).Perm
        (ledger.store.actions.map content ++ actions.map content) := by
    have hall := h.perm_all.map content
    rwa [List.map_append, map_seededEntries content_seeded] at hall
  have hascending {final : Ledger} (hconsistent : final.store.Consistent) :
      (final.store.all.map content).Pairwise fun x y => x.1 < y.1 :=
    List.pairwise_map.2 hconsistent.ascending_all
  -- there is one way to list contents of different names in the order of names
  refine List.Perm.eq_of_pairwise (fun x y _ _ hxy hyx => absurd hyx (String.lt_asymm hxy))
    (hascending h'.consistent) (hascending h.consistent) ?_
  exact (hcontents h').trans (((hperm.map content).append_left _).trans (hcontents h).symm)

end Seeded

/-- Storing many new actions succeeds just if all can be stored. In every state that requests lead to,
if the repository answers and new ids are new: each of some actions without ids comes back as stored
just if no name is blank, already there or there twice. Then they are listed with those that were
stored before, and whatever their order was, the same is listed but for what the store keeps.
Otherwise there is a first action in the way: those before it come back and have been stored, it is
refused for its name, and that is all. -/
theorem saveAll_seeds (s : Service World) (actions : List Action) (hreach : s.Reachable ledger)
    (hup : ledger.Answering) (hids : ∀ a ∈ actions, a.id = none)
    (hnew : s.NewIds ledger actions.length) :
    (((s.saveAll actions none ledger).1.length = actions.length ∧
        ∀ item ∈ (s.saveAll actions none ledger).1, item.isOk = true) ↔
      Seedable ledger.store actions) ∧
    (Seedable ledger.store actions →
      (s.saveAll actions none ledger).1 = (s.seededEntries ledger actions).map (fun e => .ok e.2) ∧
      ∃ all, getAll.outcome (s.saveAll actions none ledger).2 = .ok all ∧ Store.Ascending all ∧
        all.Perm (ledger.store.actions ++ (s.seededEntries ledger actions).map Prod.snd) ∧
        ∀ others, others.Perm actions → ∃ all',
          getAll.outcome (s.saveAll others none ledger).2 = .ok all' ∧
          all'.map content = all.map content) ∧
    (Seedable ledger.store actions ∨ ∃ before a after, actions = before ++ a :: after ∧
      Seedable ledger.store before ∧ Offends ledger.store before a) ∧
    ∀ before a after, actions = before ++ a :: after → Seedable ledger.store before →
      Offends ledger.store before a →
      (s.saveAll actions none ledger).1 =
          (s.seededEntries ledger before).map (fun e => .ok e.2) ++ [.error (offence a)] ∧
        (s.saveAll actions none ledger).2.store.entries =
          ledger.store.entries ++ s.seededEntries ledger before := by
  have hconsistent := hreach.consistent
  have hlisted {actions : List Action} (hids : ∀ a ∈ actions, a.id = none)
      (hnew : s.NewIds ledger actions.length) (hseedable : Seedable ledger.store actions) :
      s.Seeded ledger actions (s.saveAll actions none ledger).2 ∧
        getAll.outcome (s.saveAll actions none ledger).2 =
          .ok (s.saveAll actions none ledger).2.store.all := by
    have hseeded := (saveAll_of_seedable hup hconsistent hids hnew hseedable).1
    exact ⟨hseeded, outcome_getAll (hseeded.answering.next?_eq_none _)⟩
  have hstopped : ∀ before a after, actions = before ++ a :: after →
      Seedable ledger.store before → Offends ledger.store before a →
      s.Seeded ledger before (s.saveAll actions none ledger).2 ∧
        (s.saveAll actions none ledger).1 =
          (s.seededEntries ledger before).map (fun e => .ok e.2) ++ [.error (offence a)] := by
    rintro before a after rfl hbefore hoffends
    refine saveAll_of_offends hup hconsistent hids (hnew.mono ?_) hbefore hoffends
    rw [List.length_append]
    exact Nat.le_add_right _ _
  refine ⟨⟨?_, ?_⟩, ?_, seedable_or_exists_offends _ _, ?_⟩
  · rintro ⟨-, hok⟩
    rcases seedable_or_exists_offends ledger.store actions with
      h | ⟨before, a, after, heq, hbefore, hoffends⟩
    · exact h
    · have hfailed := hok (.error (offence a)) (by rw [(hstopped _ _ _ heq hbefore hoffends).2]; simp)
      nomatch hfailed
  · intro hseedable
    rw [(saveAll_of_seedable hup hconsistent hids hnew hseedable).2]
    exact ⟨by simp [seededEntries], isOk_of_mem_map_ok⟩
  · intro hseedable
    obtain ⟨hseeded, hall⟩ := hlisted hids hnew hseedable
    refine ⟨(saveAll_of_seedable hup hconsistent hids hnew hseedable).2, _, hall,
      hseeded.consistent.ascending_all, hseeded.perm_all, fun others hperm => ?_⟩
    obtain ⟨hseeded', hall'⟩ := hlisted (fun a ha => hids a (hperm.mem_iff.1 ha))
      (hperm.length_eq ▸ hnew) (hseedable.perm hperm)
    exact ⟨_, hall', hseeded.map_content_all_eq hseeded' hperm⟩
  · intro before a after heq hbefore hoffends
    obtain ⟨hseeded, hitems⟩ := hstopped before a after heq hbefore hoffends
    exact ⟨hitems, hseeded.entries⟩

/-- The service with a longer id for every new action. -/
def countingService : Service Nat :=
  { echoService with ids := fun n => ⟨String.ofList (List.replicate n 'x')⟩ }

/-- Three actions without ids, of which the last has the name of the first. -/
def echoCatalog : List Action := [echoAction, { echoAction with name := "all users" }, echoAction]

/-- The last of the three actions is refused, and the first two have been stored. -/
theorem saveAll_seeds_echo :
    countingService.Reachable {} ∧ ({} : Ledger).Answering ∧ (∀ a ∈ echoCatalog, a.id = none) ∧
    countingService.NewIds {} echoCatalog.length ∧
    (countingService.saveAll echoCatalog none {}).1 =
      [.ok (countingService.seeded {} 0 echoAction),
        .ok (countingService.seeded {} 1 { echoAction with name := "all users" }),
        .error (.duplicateName "echo user")] := by
  have hids : ∀ a ∈ echoCatalog, a.id = none := by decide
  have hnew : countingService.NewIds {} echoCatalog.length := by
    refine ⟨fun k _ => rfl, fun j k hjk _ heq => ?_⟩
    have hlength := congrArg (fun id => id.text.length) heq
    simp [countingService] at hlength
    omega
  obtain ⟨-, -, -, hstopped⟩ := saveAll_seeds countingService echoCatalog .start rfl hids hnew
  have hseedable : Seedable ({} : Ledger).store
      [echoAction, { echoAction with name := "all users" }] :=
    ⟨by decide +kernel, by decide, fun a _ b hb => absurd hb List.not_mem_nil⟩
  have hoffends : Offends ({} : Ledger).store
      [echoAction, { echoAction with name := "all users" }] echoAction :=
    .inr ⟨echoAction, by simp, rfl⟩
  exact ⟨.start, rfl, hids, hnew, (hstopped _ echoAction [] rfl hseedable hoffends).1⟩

end ActionBook.Service
