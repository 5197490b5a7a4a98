import ActionBook.Text.Order

/-!
# `TextSet`: sets of texts in ascending order

A `TextSet` is a list of texts in strictly ascending code-point order, so that a set has one
representation and its elements are always written in order. Main statements: membership after
`insert`, `union` and `ofList`, and `TextSet.ext`, which says that a set is its members.
-/

namespace ActionBook

/-- Finitely many texts, without repetition, in ascending order. -/
structure TextSet where
  toList : List String
  sorted : toList.Pairwise (· < ·)
deriving DecidableEq

namespace TextSet

/-- Puts a text at its place in an ascending list, once. -/
def insertSorted (x : String) : List String → List String
  | [] => [x]
  | y :: rest =>
    if x < y then x :: y :: rest
    else if x = y then y :: rest
    else y :: insertSorted x rest

theorem mem_insertSorted {x z : String} {items : List String} :
    z ∈ insertSorted x items ↔ z = x ∨ z ∈ items := by
  induction items with
  | nil => simp [insertSorted]
  | cons y rest ih =>
    rw [insertSorted]
    split
    · simp
    · split
      next h => subst h; simp
      next => simp only [List.mem_cons, ih]; grind

theorem sorted_insertSorted {x : String} {items : List String}
    (h : items.Pairwise (· < ·)) : (insertSorted x items).Pairwise (· < ·) := by
  induction items with
  | nil => simp [insertSorted]
  | cons y rest ih =>
    rw [List.pairwise_cons] at h
    rw [insertSorted]
    split
    next hlt =>
      refine List.pairwise_cons.2 ⟨fun z hz => ?_, List.pairwise_cons.2 h⟩
      rcases List.mem_cons.1 hz with rfl | hz
      · exact hlt
      · exact String.lt_trans hlt (h.1 z hz)
    next hlt =>
      split
      · exact List.pairwise_cons.2 h
      next hne =>
        refine List.pairwise_cons.2 ⟨fun z hz => ?_, ih h.2⟩
        rcases mem_insertSorted.1 hz with rfl | hz
        · exact Text.lt_of_not_lt_of_ne hlt hne
        · exact h.1 z hz

/-- The set with nothing in it. -/
def empty : TextSet := ⟨[], List.Pairwise.nil⟩

instance : Inhabited TextSet := ⟨empty⟩

/-- The set with one more text. -/
def insert (s : TextSet) (x : String) : TextSet :=
  ⟨insertSorted x s.toList, sorted_insertSorted s.sorted⟩

/-- The set of the texts in a list. -/
def ofList (items : List String) : TextSet := items.foldl insert empty

/-- All texts of two sets. -/
def union (s t : TextSet) : TextSet := t.toList.foldl insert s

instance : Membership String TextSet := ⟨fun s x => x ∈ s.toList⟩

instance (x : String) (s : TextSet) : Decidable (x ∈ s) :=
  inferInstanceAs (Decidable (x ∈ s.toList))

/-- Whether there is nothing in the set. -/
def isEmpty (s : TextSet) : Bool := s.toList.isEmpty

/-- The texts of a set in order, with `separator` between neighbours. -/
def joined (s : TextSet) (separator : String) : String := String.intercalate separator s.toList

/-! ## Members -/

theorem mem_def {x : String} {s : TextSet} : x ∈ s ↔ x ∈ s.toList := Iff.rfl

@[simp] theorem not_mem_empty (x : String) : x ∉ empty := by simp [mem_def, empty]

@[simp] theorem mem_insert {x z : String} {s : TextSet} : z ∈ s.insert x ↔ z = x ∨ z ∈ s :=
  mem_insertSorted

theorem mem_foldl_insert {z : String} {items : List String} {s : TextSet} :
    z ∈ items.foldl insert s ↔ z ∈ items ∨ z ∈ s := by
  induction items generalizing s with
  | nil => simp
  | cons x rest ih => simp only [List.foldl_cons, ih, mem_insert, List.mem_cons]; grind

@[simp] theorem mem_ofList {z : String} {items : List String} : z ∈ ofList items ↔ z ∈ items := by
  simp [ofList, mem_foldl_insert]

@[simp] theorem mem_union {z : String} {s t : TextSet} : z ∈ s.union t ↔ z ∈ s ∨ z ∈ t := by
  rw [union, mem_foldl_insert]
  exact Or.comm

theorem isEmpty_iff {s : TextSet} : s.isEmpty ↔ ∀ x, x ∉ s := by
  rw [isEmpty, List.isEmpty_iff, List.eq_nil_iff_forall_not_mem]
  rfl

/-- Ascending lists with the same members are the same list. -/
theorem eq_of_sorted_of_mem_iff {items others : List String} (h : items.Pairwise (· < ·))
    (h' : others.Pairwise (· < ·)) (hmem : ∀ x, x ∈ items ↔ x ∈ others) : items = others := by
  induction items generalizing others with
  | nil =>
    cases others with
    | nil => rfl
    | cons y rest => exact absurd ((hmem y).2 (by simp)) (by simp)
  | cons x rest ih =>
    cases others with
    | nil => exact absurd ((hmem x).1 (by simp)) (by simp)
    | cons y rest' =>
      rw [List.pairwise_cons] at h h'
      have hxy : x = y := by
        rcases List.mem_cons.1 ((hmem x).1 (by simp)) with hx | hx
        · exact hx
        · rcases List.mem_cons.1 ((hmem y).2 (by simp)) with hy | hy
          · exact hy.symm
          · exact absurd (h.1 y hy) (String.lt_asymm (h'.1 x hx))
      subst hxy
      refine congrArg (x :: ·) (ih h.2 h'.2 fun z => ?_)
      constructor
      · intro hz
        rcases List.mem_cons.1 ((hmem z).1 (List.mem_cons_of_mem _ hz)) with rfl | h''
        · exact absurd (h.1 z hz) (String.lt_irrefl z)
        · exact h''
      · intro hz
        rcases List.mem_cons.1 ((hmem z).2 (List.mem_cons_of_mem _ hz)) with rfl | h''
        · exact absurd (h'.1 z hz) (String.lt_irrefl z)
        · exact h''

/-- A set is determined by its members. -/
theorem ext {s t : TextSet} (h : ∀ x, x ∈ s ↔ x ∈ t) : s = t := by
  cases s with
  | mk items hs =>
    cases t with
    | mk others ht =>
      have := eq_of_sorted_of_mem_iff hs ht h
      subst this
      rfl

end TextSet

end ActionBook
