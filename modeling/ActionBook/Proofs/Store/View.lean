import ActionBook.Store.Basic

/-!
# `Store.View`: a store as a function of ids

What a store is to its users is `Store.find?`: putting an action changes it at one id, erasing makes
it empty at one id (`find?_put`, `find?_erase`), and what is found by name or listed is found under
some id (`findNamed?_eq_none_iff`, `mem_actions_iff`). The order of the entries does not matter to it
(`find?_eq_of_perm`).
-/

namespace ActionBook.Store

variable {s : Store} {id other : ActionId} {a b : Action} {name : String}

theorem find?_eq_some_iff : s.find? id = some a ↔ (id, a) ∈ s.entries := by
  rw [find?, List.lookup_eq_some_iff]
  constructor
  · rintro ⟨before, after, heq, -⟩
    rw [heq]
    simp
  · intro h
    obtain ⟨before, after, heq⟩ := List.append_of_mem h
    -- an entry before it with the same id would be there twice
    refine ⟨before, after, heq, fun e he => ?_⟩
    have hdistinct := s.distinct
    rw [heq, List.map_append, List.nodup_append] at hdistinct
    rw [bne_iff_ne]
    exact (hdistinct.2.2 e.1 (List.mem_map_of_mem he) id (by simp)).symm

/-- Stores with the same entries, in whatever order, keep the same under every id. -/
theorem find?_eq_of_perm {t : Store} (h : t.entries.Perm s.entries) : t.find? id = s.find? id := by
  refine Option.ext fun a => ?_
  rw [find?_eq_some_iff, find?_eq_some_iff, h.mem_iff]

/-- An action is listed just if it is kept under some id. -/
theorem mem_actions_iff : a ∈ s.actions ↔ ∃ id, s.find? id = some a := by
  rw [actions, List.mem_map]
  constructor
  · rintro ⟨⟨id, b⟩, h, rfl⟩
    exact ⟨id, find?_eq_some_iff.2 h⟩
  · rintro ⟨id, h⟩
    exact ⟨(id, a), find?_eq_some_iff.1 h, rfl⟩

theorem findNamed?_eq_none_iff :
    s.findNamed? name = none ↔ ∀ id a, s.find? id = some a → a.name ≠ name := by
  rw [findNamed?, List.find?_eq_none]
  constructor
  · intro h id a ha
    simpa using h a (mem_actions_iff.2 ⟨id, ha⟩)
  · intro h a ha
    obtain ⟨id, hid⟩ := mem_actions_iff.1 ha
    simpa using h id a hid

theorem exists_of_findNamed?_eq_some (h : s.findNamed? name = some a) :
    ∃ id, s.find? id = some a ∧ a.name = name := by
  rw [findNamed?] at h
  obtain ⟨id, hid⟩ := mem_actions_iff.1 (List.mem_of_find?_eq_some h)
  exact ⟨id, hid, by simpa using List.find?_some h⟩

/-! ## After a change -/

@[simp] theorem find?_empty : empty.find? id = none := rfl

theorem lookup_cons_eq_ite {entries : List (ActionId × Action)} :
    ((id, a) :: entries).lookup other = if other = id then some a else entries.lookup other := by
  rw [List.lookup_cons]
  by_cases h : other = id
  · simp [h]
  · rw [if_neg h, beq_false_of_ne h]

theorem lookup_putEntry {entries : List (ActionId × Action)} :
    (putEntry id a entries).lookup other = if other = id then some a else entries.lookup other := by
  induction entries with
  | nil => rw [putEntry, lookup_cons_eq_ite]
  | cons e rest ih =>
    obtain ⟨i, b⟩ := e
    rw [putEntry]
    by_cases hid : i = id
    · subst hid
      rw [if_pos rfl, lookup_cons_eq_ite, lookup_cons_eq_ite]
      by_cases h : other = i <;> simp [h]
    · rw [if_neg hid, lookup_cons_eq_ite, lookup_cons_eq_ite, ih]
      by_cases h : other = i
      · subst h
        simp [hid]
      · simp [h]

/-- Putting an action changes what is found under its id and nothing else. -/
theorem find?_put : (s.put id a).find? other = if other = id then some a else s.find? other :=
  lookup_putEntry

theorem putEntry_of_lookup_eq_none {entries : List (ActionId × Action)}
    (h : entries.lookup id = none) : putEntry id a entries = entries ++ [(id, a)] := by
  induction entries with
  | nil => rfl
  | cons e rest ih =>
    obtain ⟨i, b⟩ := e
    rw [lookup_cons_eq_ite] at h
    split at h
    · nomatch h
    next hne => rw [putEntry, if_neg (Ne.symm hne), ih h, List.cons_append]

/-- Under a new id, an action is put after all others. -/
theorem entries_put_of_find?_eq_none (h : s.find? id = none) :
    (s.put id a).entries = s.entries ++ [(id, a)] :=
  putEntry_of_lookup_eq_none h

/-- Erasing leaves nothing under an id and everything else. -/
theorem find?_erase : (s.erase id).find? other = if other = id then none else s.find? other := by
  by_cases h : other = id
  · subst h
    rw [if_pos rfl, Option.eq_none_iff_forall_ne_some]
    intro b hb
    rw [find?_eq_some_iff, erase, List.mem_filter] at hb
    simp at hb
  · rw [if_neg h]
    refine Option.ext fun b => ?_
    rw [find?_eq_some_iff, find?_eq_some_iff, erase, List.mem_filter]
    simp [h]

/-- Where there is nothing to erase, the store stays as it is. -/
theorem erase_eq_self (h : s.find? id = none) : s.erase id = s := by
  have hentries : (s.entries.filter fun e => e.1 ≠ id) = s.entries := by
    rw [List.filter_eq_self]
    rintro ⟨i, a⟩ ha
    rw [decide_eq_true_eq]
    rintro rfl
    rw [find?_eq_some_iff.2 ha] at h
    nomatch h
  cases s
  simp only [erase, hentries]

/-- The second store is like the first but for what is kept under one id, which is given. -/
structure ChangesAt (s t : Store) (id : ActionId) (entry : Option Action) : Prop where
  here : t.find? id = entry
  elsewhere : ∀ other, other ≠ id → t.find? other = s.find? other

theorem changesAt_put (s : Store) (id : ActionId) (a : Action) :
    s.ChangesAt (s.put id a) id (some a) :=
  ⟨by rw [find?_put, if_pos rfl], fun other h => by rw [find?_put, if_neg h]⟩

theorem changesAt_erase (s : Store) (id : ActionId) : s.ChangesAt (s.erase id) id none :=
  ⟨by rw [find?_erase, if_pos rfl], fun other h => by rw [find?_erase, if_neg h]⟩

end ActionBook.Store
