import ActionBook.Proofs.Service.Consistency
import ActionBook.Proofs.Service.Reading
import ActionBook.Proofs.Store.Listing

/-!
# `Service.Lookup`: one set of actions, looked at in several ways

A search for a name takes the first action that has it, a listing sorts, and a search for many names
selects, sorts and drops repeated ids. In a consistent store all three speak of the same set of
actions, and none depends on the order in which the entries are kept. That order may change at any
time (`Service.Reachable`), so the main statement is about every order that can come up.
-/

namespace ActionBook

/-! ## Stores -/

namespace Store

variable {store other : Store} {id : ActionId} {a : Action} {name : String} {names : TextSet}

theorem mem_all_iff : a ∈ store.all ↔ a ∈ store.actions := (perm_byName _).mem_iff

theorem mem_allNamed_iff : a ∈ store.allNamed names ↔ a ∈ store.actions ∧ a.name ∈ names := by
  rw [allNamed, (perm_byName _).mem_iff, List.mem_filter, decide_eq_true_eq]

theorem mem_actions_of_perm (h : other.entries.Perm store.entries) :
    a ∈ other.actions ↔ a ∈ store.actions :=
  (h.map Prod.snd).mem_iff

namespace Consistent

theorem of_perm (h : store.Consistent) (hperm : other.entries.Perm store.entries) :
    other.Consistent := by
  refine h.mono fun {i a} ha => ?_
  rwa [find?_eq_of_perm hperm] at ha

/-- The search for a name finds the one action that has it. -/
theorem findNamed?_eq_some_iff (h : store.Consistent) :
    store.findNamed? name = some a ↔ a ∈ store.actions ∧ a.name = name := by
  constructor
  · intro hfound
    obtain ⟨id, hid, hname⟩ := exists_of_findNamed?_eq_some hfound
    exact ⟨mem_actions_iff.2 ⟨id, hid⟩, hname⟩
  · rintro ⟨hmem, rfl⟩
    obtain ⟨id, hid⟩ := mem_actions_iff.1 hmem
    exact h.findNamed?_eq_some hid

theorem nodup_ids (h : store.Consistent) : (store.actions.map Action.id).Nodup := by
  -- every action carries the id that it is kept under, and those differ
  have hids : store.actions.map Action.id = (store.entries.map Prod.fst).map some := by
    rw [actions, List.map_map, List.map_map]
    refine List.map_congr_left fun e he => ?_
    exact h.id (find?_eq_some_iff.2 he)
  rw [hids]
  exact store.distinct.map fun _ _ => Option.some.inj

theorem ascending_all (h : store.Consistent) : Ascending store.all := ascending_byName h.nodup_names

theorem ascending_allNamed (h : store.Consistent) (names : TextSet) :
    Ascending (store.allNamed names) :=
  ascending_byName ((List.filter_sublist.map Action.name).nodup h.nodup_names)

/-- It is the same to select and then to sort, and to sort and then to select. -/
theorem allNamed_eq_filter (h : store.Consistent) (names : TextSet) :
    store.allNamed names = store.all.filter fun a => a.name ∈ names := by
  refine eq_of_ascending (h.ascending_allNamed names) (h.ascending_all.filter _) fun a => ?_
  rw [mem_allNamed_iff, List.mem_filter, mem_all_iff, decide_eq_true_eq]

/-- To search for many names is to search for one after the other, in their order. -/
theorem allNamed_eq_filterMap (h : store.Consistent) (names : TextSet) :
    store.allNamed names = names.toList.filterMap store.findNamed? := by
  have hascending : Ascending (names.toList.filterMap store.findNamed?) := by
    refine List.pairwise_filterMap.2 (names.sorted.imp fun {n n'} hlt a ha b hb => ?_)
    rw [(h.findNamed?_eq_some_iff.1 ha).2, (h.findNamed?_eq_some_iff.1 hb).2]
    exact hlt
  refine eq_of_ascending (h.ascending_allNamed names) hascending fun a => ?_
  rw [mem_allNamed_iff, List.mem_filterMap]
  constructor
  · rintro ⟨hmem, hname⟩
    exact ⟨a.name, hname, h.findNamed?_eq_some_iff.2 ⟨hmem, rfl⟩⟩
  · rintro ⟨name, hname, ha⟩
    obtain ⟨hmem, rfl⟩ := h.findNamed?_eq_some_iff.1 ha
    exact ⟨hmem, hname⟩

theorem nodup_ids_allNamed (h : store.Consistent) (names : TextSet) :
    ((store.allNamed names).map Action.id).Nodup := by
  rw [allNamed, ((perm_byName _).map Action.id).nodup_iff]
  exact (List.filter_sublist.map Action.id).nodup h.nodup_ids

/-! ### Another order of the entries -/

theorem all_eq_of_perm (h : store.Consistent) (hperm : other.entries.Perm store.entries) :
    other.all = store.all :=
  eq_of_ascending (h.of_perm hperm).ascending_all h.ascending_all fun a => by
    rw [mem_all_iff, mem_all_iff, mem_actions_of_perm hperm]

theorem findNamed?_eq_of_perm (h : store.Consistent) (hperm : other.entries.Perm store.entries) :
    other.findNamed? name = store.findNamed? name :=
  Option.ext fun a => by
    rw [(h.of_perm hperm).findNamed?_eq_some_iff, h.findNamed?_eq_some_iff,
      mem_actions_of_perm hperm]

theorem allNamed_eq_of_perm (h : store.Consistent) (hperm : other.entries.Perm store.entries) :
    other.allNamed names = store.allNamed names := by
  rw [(h.of_perm hperm).allNamed_eq_filter, h.allNamed_eq_filter, h.all_eq_of_perm hperm]

end Consistent

end Store

/-! ## Ledgers -/

/-- A ledger whose store keeps the same entries in another order. -/
structure Ledger.Reordered (ledger other : Ledger) : Prop where
  entries : other.store.entries.Perm ledger.store.entries
  issued : other.issued = ledger.issued
  written : other.written = ledger.written

namespace Service

open Operation

variable {World : Type} {s : Service World} {ledger other : Ledger} {actions : List Action}
  {names : TextSet}

/-- The ledgers that requests lead to from an empty store, if between them the entries may come to be
kept in any other order. -/
inductive Reachable (s : Service World) : Ledger → Prop where
  | start : Reachable s {}
  | step {ledger : Ledger} (h : Reachable s ledger) (t : Step World) : Reachable s (s.step ledger t)
  | reordered {ledger other : Ledger} (h : Reachable s ledger) (h' : ledger.Reordered other) :
    Reachable s other

theorem Reachable.consistent (h : s.Reachable ledger) : ledger.store.Consistent := by
  induction h with
  | start => exact Store.consistent_empty
  | step _ t ih => exact consistent_of_reaches (trace_step s _ t).reaches ih
  | reordered _ h' ih => exact ih.of_perm h'.entries

theorem reachable_history (s : Service World) (steps : List (Step World)) :
    s.Reachable (s.history steps) := by
  unfold history
  have hstart : s.Reachable {} := .start
  generalize ({} : Ledger) = ledger at hstart
  induction steps generalizing ledger with
  | nil => exact hstart
  | cons t steps ih => exact ih _ (hstart.step t)

/-- Actions of different ids, none of which has come before, are all kept. -/
theorem distinctById_eq_self {seen : List (Option ActionId)} (h : (actions.map Action.id).Nodup)
    (hseen : ∀ a ∈ actions, a.id ∉ seen) : distinctById seen actions = actions := by
  induction actions generalizing seen with
  | nil => rfl
  | cons a rest ih =>
    rw [List.map_cons, List.nodup_cons] at h
    rw [distinctById, if_neg (hseen a (by simp)), ih h.2]
    intro b hb
    rw [List.mem_cons, not_or]
    refine ⟨fun heq => h.1 ?_, hseen b (List.mem_cons_of_mem _ hb)⟩
    rw [← heq]
    exact List.mem_map_of_mem hb

/-- The search for many names gives all that the repository has found. -/
theorem outcome_findDistinct_of_consistent (hconsistent : ledger.store.Consistent)
    (hup : ledger.repository.outages.next? .findByNames = none) :
    (findDistinct names).outcome ledger = .ok (ledger.store.allNamed names) := by
  have hselected : (ledger.store.allNamed names).filter (fun a => a.name ∈ names) =
      ledger.store.allNamed names := by
    rw [List.filter_eq_self]
    intro a ha
    exact decide_eq_true (Store.mem_allNamed_iff.1 ha).2
  rw [outcome_findDistinct hup, hselected,
    distinctById_eq_self (hconsistent.nodup_ids_allNamed names) (by simp)]

/-- All lookups speak of the set of stored actions. In every state that requests lead to, in whatever
order the entries are kept: all actions are listed, each once, in strictly ascending order of names;
the search for a name finds the action that has it; and the search for many names finds what selecting
from the list gives, which is what searching for one name after the other gives, with different ids
and names, so that nothing is dropped as repeated. -/
theorem lookups_agree (s : Service World) (hreach : s.Reachable ledger)
    (hup : ∀ call, ledger.repository.outages.next? call = none) :
    ∃ (all : List Action) (named : String → Option Action),
      getAll.outcome ledger = .ok all ∧
      (∀ name, (findByName name).outcome ledger = .ok (named name)) ∧
      all.Perm ledger.store.actions ∧ all.Pairwise (fun a b => a.name < b.name) ∧
      (∀ name a, named name = some a ↔ a ∈ ledger.store.actions ∧ a.name = name) ∧
      (∀ names : TextSet, ∃ found,
        (findDistinct names).outcome ledger = .ok found ∧
        found = all.filter (fun a => a.name ∈ names) ∧ found = names.toList.filterMap named ∧
        found = ledger.store.allNamed names ∧
        (found.map Action.id).Nodup ∧ (found.map Action.name).Nodup ∧
        found.length ≤ names.toList.length) ∧
      ∀ other, ledger.Reordered other → (∀ call, other.repository.outages.next? call = none) →
        getAll.outcome other = getAll.outcome ledger ∧
        (∀ name, (findByName name).outcome other = (findByName name).outcome ledger) ∧
        ∀ names, (findDistinct names).outcome other = (findDistinct names).outcome ledger := by
  have hconsistent := hreach.consistent
  refine ⟨ledger.store.all, ledger.store.findNamed?, outcome_getAll (hup _),
    fun name => outcome_findByName (hup _), Store.perm_byName _, hconsistent.ascending_all,
    fun name a => hconsistent.findNamed?_eq_some_iff, fun names => ?many, ?order⟩
  case many =>
    refine ⟨_, outcome_findDistinct_of_consistent hconsistent (hup _),
      hconsistent.allNamed_eq_filter names, hconsistent.allNamed_eq_filterMap names, rfl,
      hconsistent.nodup_ids_allNamed names, (hconsistent.ascending_allNamed names).nodup_names, ?_⟩
    rw [hconsistent.allNamed_eq_filterMap]
    exact List.length_filterMap_le _ _
  case order =>
    intro other hreordered hup'
    have hconsistent' := (hreach.reordered hreordered).consistent
    refine ⟨?_, fun name => ?_, fun names => ?_⟩
    · rw [outcome_getAll (hup' _), outcome_getAll (hup _),
        hconsistent.all_eq_of_perm hreordered.entries]
    · rw [outcome_findByName (hup' _), outcome_findByName (hup _),
        hconsistent.findNamed?_eq_of_perm hreordered.entries]
    · rw [outcome_findDistinct_of_consistent hconsistent' (hup' _),
        outcome_findDistinct_of_consistent hconsistent (hup _),
        hconsistent.allNamed_eq_of_perm hreordered.entries]

/-- Two actions have been stored, of which the second is first by name. -/
def echoPair : Ledger :=
  echoService.history [{ request := .save echoAction },
    { request := .save { echoAction with id := some ⟨"2"⟩, name := "all users" } }]

/-- The two actions are listed by name, and a search for one of them and for a name that none has
selects from the list. -/
theorem lookups_agree_echo :
    echoService.Reachable echoPair ∧
    (∀ call, echoPair.repository.outages.next? call = none) ∧
    ∃ all found, getAll.outcome echoPair = .ok all ∧
      (findDistinct (.ofList ["nobody", "echo user"])).outcome echoPair = .ok found ∧
      found = all.filter (fun a => a.name ∈ TextSet.ofList ["nobody", "echo user"]) ∧
      all.map Action.name = ["all users", "echo user"] ∧ found.map Action.name = ["echo user"] := by
  have hreach : echoService.Reachable echoPair := reachable_history _ _
  have hup : ∀ call, echoPair.repository.outages.next? call = none := by
    intro call
    cases call <;> rfl
  obtain ⟨all, named, hall, -, hperm, hascending, -, hmany, -⟩ :=
    lookups_agree echoService hreach hup
  obtain ⟨found, hfound, hselected, -⟩ := hmany (.ofList ["nobody", "echo user"])
  have hstored : echoPair.store.actions.map Action.name = ["echo user", "all users"] := by
    decide +kernel
  -- the ascending list of the two names is the only one
  have hnames : all.map Action.name = ["all users", "echo user"] := by
    refine TextSet.eq_of_sorted_of_mem_iff (List.pairwise_map.2 hascending) (by decide) fun x => ?_
    rw [(hperm.map Action.name).mem_iff, hstored]
    simp [or_comm]
  refine ⟨hreach, hup, all, found, hall, hfound, hselected, hnames, ?_⟩
  have hmap : found.map Action.name =
      (all.map Action.name).filter (fun x => x ∈ TextSet.ofList ["nobody", "echo user"]) := by
    rw [hselected, List.filter_map]
    rfl
  rw [hmap, hnames]
  decide +kernel

end Service

end ActionBook
