import ActionBook.Number.Binary64
import ActionBook.Text.Order

/-!
# `Json`: values and their canonical form

`Json` is a tree as it is written, its objects listing their members in order. `JsonValue` is a tree
that lists the members of every object once, in ascending order of their names: equal values have
equal trees.
-/

namespace ActionBook

/-- A JSON tree. Whole numbers stay whole; all others are binary floating-point numbers. -/
inductive Json where
  | null
  | bool (b : Bool)
  | int (n : Int)
  | float (x : Binary64)
  | str (s : String)
  | arr (items : List Json)
  | obj (members : List (String × Json))
deriving Inhabited

namespace Json

/-- The member of an object with the given name; a tree that is no object has none. -/
def member? (name : String) : Json → Option Json
  | .obj members => members.lookup name
  | _ => none

/-! ## Canonical trees -/

mutual
/-- Every object lists its members in strictly ascending order of their names. -/
def Canonical : Json → Prop
  | .arr items => CanonicalItems items
  | .obj members => (members.map Prod.fst).Pairwise (· < ·) ∧ CanonicalMembers members
  | _ => True

/-- All items are canonical. -/
def CanonicalItems : List Json → Prop
  | [] => True
  | item :: items => item.Canonical ∧ CanonicalItems items

/-- The values of all members are canonical. -/
def CanonicalMembers : List (String × Json) → Prop
  | [] => True
  | (_, value) :: members => value.Canonical ∧ CanonicalMembers members
end

theorem canonicalItems_iff {items : List Json} :
    CanonicalItems items ↔ ∀ item ∈ items, item.Canonical := by
  induction items with
  | nil => simp [CanonicalItems]
  | cons item items ih => simp [CanonicalItems, ih]

theorem canonicalMembers_iff {members : List (String × Json)} :
    CanonicalMembers members ↔ ∀ m ∈ members, m.2.Canonical := by
  induction members with
  | nil => simp [CanonicalMembers]
  | cons m members ih =>
    obtain ⟨name, value⟩ := m
    simp [CanonicalMembers, ih]

/-- Sets the value of a name among ascending members: in place if the name is there, else at its
place. -/
def setMember (name : String) (value : Json) : List (String × Json) → List (String × Json)
  | [] => [(name, value)]
  | (other, v) :: rest =>
    if name < other then (name, value) :: (other, v) :: rest
    else if name = other then (name, value) :: rest
    else (other, v) :: setMember name value rest

/-- The members in ascending order, the last of equal names deciding its value. -/
def sortMembers (members : List (String × Json)) : List (String × Json) :=
  members.foldl (fun sorted (name, value) => setMember name value sorted) []

theorem mem_setMember {name : String} {value : Json} {members : List (String × Json)}
    {m : String × Json} (h : m ∈ setMember name value members) :
    m = (name, value) ∨ m ∈ members := by
  induction members with
  | nil => simpa [setMember] using h
  | cons o rest ih =>
    obtain ⟨other, v⟩ := o
    rw [setMember] at h
    split at h
    · simpa using h
    · split at h
      · rcases List.mem_cons.1 h with h | h
        · exact .inl h
        · exact .inr (List.mem_cons_of_mem _ h)
      · rcases List.mem_cons.1 h with h | h
        · exact .inr (h ▸ List.mem_cons_self)
        · exact (ih h).imp_right (List.mem_cons_of_mem _)

theorem sorted_setMember {name : String} {value : Json} {members : List (String × Json)}
    (h : (members.map Prod.fst).Pairwise (· < ·)) :
    ((setMember name value members).map Prod.fst).Pairwise (· < ·) := by
  induction members with
  | nil => simp [setMember]
  | cons o rest ih =>
    obtain ⟨other, v⟩ := o
    rw [List.map_cons, List.pairwise_cons] at h
    rw [setMember]
    split
    next hlt =>
      refine List.pairwise_cons.2 ⟨fun z hz => ?_, List.pairwise_cons.2 h⟩
      rcases List.mem_cons.1 hz with rfl | hz
      · exact hlt
      · exact String.lt_trans hlt (h.1 z hz)
    next hlt =>
      split
      next heq => subst heq; exact List.pairwise_cons.2 h
      next hne =>
        refine List.pairwise_cons.2 ⟨fun z hz => ?_, ih h.2⟩
        obtain ⟨m, hm, rfl⟩ := List.mem_map.1 hz
        rcases mem_setMember hm with rfl | hm
        · exact Text.lt_of_not_lt_of_ne hlt hne
        · exact h.1 _ (List.mem_map_of_mem hm)

theorem canonicalMembers_setMember {name : String} {value : Json} {members : List (String × Json)}
    (hv : value.Canonical) (h : CanonicalMembers members) :
    CanonicalMembers (setMember name value members) := by
  rw [canonicalMembers_iff] at h ⊢
  intro m hm
  rcases mem_setMember hm with rfl | hm
  · exact hv
  · exact h m hm

theorem canonical_foldl_setMember {members sorted : List (String × Json)}
    (h : CanonicalMembers members) (hs : (Json.obj sorted).Canonical) :
    (Json.obj
      (members.foldl (fun s (name, value) => setMember name value s) sorted)).Canonical := by
  induction members generalizing sorted with
  | nil => exact hs
  | cons m members ih =>
    obtain ⟨name, value⟩ := m
    simp only [CanonicalMembers] at h
    simp only [Canonical] at hs
    refine ih h.2 ?_
    simp only [Canonical]
    exact ⟨sorted_setMember hs.1, canonicalMembers_setMember h.1 hs.2⟩

/-- Sorting canonical values by their names gives a canonical object. -/
theorem canonical_sortMembers {members : List (String × Json)} (h : CanonicalMembers members) :
    (Json.obj (sortMembers members)).Canonical :=
  canonical_foldl_setMember h (by simp [Canonical, CanonicalMembers])

end Json

/-- A JSON value: a tree that does not depend on the order in which members were written. -/
structure JsonValue where
  tree : Json
  canonical : tree.Canonical

namespace JsonValue

/-- The null value. -/
def null : JsonValue := ⟨.null, by simp [Json.Canonical]⟩

instance : Inhabited JsonValue := ⟨null⟩

/-- A text as a value. -/
def str (s : String) : JsonValue := ⟨.str s, by simp [Json.Canonical]⟩

/-- The array of some values. -/
def arr (items : List JsonValue) : JsonValue :=
  ⟨.arr (items.map JsonValue.tree), by
    simp only [Json.Canonical, Json.canonicalItems_iff, List.mem_map]
    rintro item ⟨v, -, rfl⟩
    exact v.canonical⟩

/-- The array with one more item at its end; only an array has one. -/
def push? (v item : JsonValue) : Option JsonValue :=
  match v with
  | ⟨.arr items, h⟩ => some ⟨.arr (items ++ [item.tree]), by
      simp only [Json.Canonical, Json.canonicalItems_iff, List.forall_mem_append,
        List.forall_mem_singleton] at h ⊢
      exact ⟨h, item.canonical⟩⟩
  | _ => none

/-- The object with some members, the last of equal names deciding its value. -/
def obj (members : List (String × JsonValue)) : JsonValue :=
  ⟨.obj (Json.sortMembers (members.map fun (name, v) => (name, v.tree))), by
    apply Json.canonical_sortMembers
    rw [Json.canonicalMembers_iff]
    rintro m hm
    obtain ⟨m', -, rfl⟩ := List.mem_map.1 hm
    exact m'.2.canonical⟩

end JsonValue

end ActionBook
