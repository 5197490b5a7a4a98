import ActionBook.Json.Basic
import ActionBook.Proofs.Pairing
import Mathlib.Data.List.Perm.Basic

/-!
# `Json.Tree`: trees that hold the same value

A tree stands for a value (`Json.value`), in which the order of members is lost. `Reordered` relates
trees that differ only in that order. A tree that names no member twice (`Distinct`) has the value
of each of its reorderings (`Reordered.value_eq`), and the canonical tree of this value is one of
them (`Distinct.reordered_value`). In a tree that is `Whole`, all numbers are whole and have 64 bits,
so that they survive being written.
-/

namespace ActionBook

theorem JsonValue.eq_of_tree_eq {v w : JsonValue} (h : v.tree = w.tree) : v = w := by
  cases v
  cases w
  cases h
  rfl

namespace Json

/-- What holds of the scalars, of a list if of its items, and of an object if of its members, holds
of every tree. -/
theorem induction {motive : Json → Prop} (null : motive .null) (bool : ∀ b, motive (.bool b))
    (int : ∀ n, motive (.int n)) (float : ∀ x, motive (.float x)) (str : ∀ s, motive (.str s))
    (arr : ∀ items, (∀ item ∈ items, motive item) → motive (.arr items))
    (obj : ∀ members, (∀ m ∈ members, motive m.2) → motive (.obj members)) (tree : Json) :
    motive tree :=
  match tree with
  | .null => null
  | .bool b => bool b
  | .int n => int n
  | .float x => float x
  | .str s => str s
  | .arr items => arr items fun item _ => induction null bool int float str arr obj item
  | .obj members => obj members fun m _ => induction null bool int float str arr obj m.2
termination_by sizeOf tree
decreasing_by
  · rename_i hitem
    have hlt := List.sizeOf_lt_of_mem hitem
    simp only [Json.arr.sizeOf_spec]
    omega
  · rename_i hm
    have hlt := List.sizeOf_lt_of_mem hm
    have hsnd : sizeOf m.2 < sizeOf m := by
      cases m
      simp only [Prod.mk.sizeOf_spec]
      omega
    simp only [Json.obj.sizeOf_spec]
    omega

/-! ## Members in ascending order -/

/-- The names of members, in order. -/
abbrev names (members : List (String × Json)) : List String := members.map Prod.fst

variable {members others : List (String × Json)}

theorem setMember_perm {name : String} {value : Json} (h : name ∉ names members) :
    (setMember name value members).Perm ((name, value) :: members) := by
  induction members with
  | nil => exact .refl _
  | cons m members ih =>
    obtain ⟨other, v⟩ := m
    rw [names, List.map_cons, List.mem_cons, not_or] at h
    rw [setMember, if_neg h.1]
    split
    · exact .refl _
    · exact ((ih h.2).cons (other, v)).trans (.swap _ _ _)

theorem sortMembers_perm (h : (names members).Nodup) : (sortMembers members).Perm members := by
  -- no member that is still to come has the name of one that is already in its place
  suffices hfold : ∀ sorted, (names (sorted ++ members)).Nodup →
      (members.foldl (fun s m => setMember m.1 m.2 s) sorted).Perm (sorted ++ members) from
    hfold [] h
  clear h
  induction members with
  | nil => intro sorted _; simp
  | cons m members ih =>
    intro sorted h
    have hmiddle : (sorted ++ m :: members).Perm (m :: sorted ++ members) := List.perm_middle
    have hm : m.1 ∉ names sorted := by
      intro hmem
      rw [names, List.map_append, List.map_cons] at h
      exact (List.nodup_append.1 h).2.2 _ hmem _ List.mem_cons_self rfl
    have hset : (setMember m.1 m.2 sorted ++ members).Perm (sorted ++ m :: members) :=
      ((setMember_perm hm).append_right members).trans hmiddle.symm
    exact (ih _ (((hset.map Prod.fst).nodup_iff).2 h)).trans hset

/-- Members in ascending order of their names, no name twice. -/
def Ascending (members : List (String × Json)) : Prop := (names members).Pairwise (· < ·)

theorem Ascending.nodup (h : Ascending members) : (names members).Nodup := by
  refine h.imp fun {a b} hlt heq => ?_
  rw [heq] at hlt
  exact String.lt_irrefl _ hlt

theorem ascending_sortMembers (members : List (String × Json)) : Ascending (sortMembers members) := by
  suffices hfold : ∀ sorted, Ascending sorted →
      Ascending (members.foldl (fun s m => setMember m.1 m.2 s) sorted) from
    hfold [] List.Pairwise.nil
  induction members with
  | nil => exact fun _ h => h
  | cons m members ih => exact fun sorted h => ih _ (sorted_setMember h)

/-- Members can be put in ascending order in one way only. -/
theorem Ascending.eq_of_perm (h : Ascending members) (h' : Ascending others)
    (hperm : members.Perm others) : members = others := by
  refine hperm.eq_of_pairwise (fun a b _ _ hab hba => ?_) (List.pairwise_map.1 h)
    (List.pairwise_map.1 h')
  exact absurd hba (String.lt_asymm hab)

theorem sortMembers_eq_of_perm (h : (names members).Nodup) (hperm : members.Perm others) :
    sortMembers others = sortMembers members := by
  have hothers : (names others).Nodup := (hperm.map Prod.fst).nodup_iff.1 h
  refine (ascending_sortMembers others).eq_of_perm (ascending_sortMembers members) ?_
  exact (sortMembers_perm hothers).trans (hperm.symm.trans (sortMembers_perm h).symm)

theorem Ascending.sortMembers_eq (h : Ascending members) : sortMembers members = members :=
  (ascending_sortMembers members).eq_of_perm h (sortMembers_perm h.nodup)

/-! ## Values -/

mutual
/-- The value of a tree: of members with equal names, the last decides. -/
def value : Json → JsonValue
  | .null => .null
  | .bool b => ⟨.bool b, by simp [Canonical]⟩
  | .int n => ⟨.int n, by simp [Canonical]⟩
  | .float x => ⟨.float x, by simp [Canonical]⟩
  | .str s => .str s
  | .arr items => .arr (itemValues items)
  | .obj members => .obj (memberValues members)

/-- The values of some items. -/
def itemValues : List Json → List JsonValue
  | [] => []
  | item :: items => item.value :: itemValues items

/-- The values of some members, with their names. -/
def memberValues : List (String × Json) → List (String × JsonValue)
  | [] => []
  | (name, v) :: members => (name, v.value) :: memberValues members
end

theorem itemValues_eq_map (items : List Json) : itemValues items = items.map value := by
  induction items with
  | nil => rfl
  | cons item items ih => rw [itemValues, ih, List.map_cons]

theorem memberValues_eq_map (members : List (String × Json)) :
    memberValues members = members.map fun m => (m.1, m.2.value) := by
  induction members with
  | nil => rfl
  | cons m members ih => rw [memberValues, ih, List.map_cons]

theorem value_arr (items : List Json) : (Json.arr items).value = .arr (items.map value) := by
  rw [value, itemValues_eq_map]

theorem value_obj (members : List (String × Json)) :
    (Json.obj members).value = .obj (members.map fun m => (m.1, m.2.value)) := by
  rw [value, memberValues_eq_map]

theorem value_arr_tree (items : List Json) :
    (Json.arr items).value.tree = .arr (items.map fun item => item.value.tree) := by
  rw [value_arr]
  exact congrArg Json.arr List.map_map

theorem value_obj_tree (members : List (String × Json)) :
    (Json.obj members).value.tree =
      .obj (sortMembers (members.map fun m => (m.1, m.2.value.tree))) := by
  rw [value_obj]
  exact congrArg (fun m => Json.obj (sortMembers m)) List.map_map


/-- A canonical tree is the tree of its value. -/
theorem Canonical.tree_value {tree : Json} (h : tree.Canonical) : tree.value.tree = tree := by
  induction tree using Json.induction with
  | arr items ih =>
    rw [Canonical, canonicalItems_iff] at h
    rw [value_arr_tree, List.map_congr_left (fun item hitem => ih item hitem (h item hitem)),
      List.map_id']
  | obj members ih =>
    rw [Canonical, canonicalMembers_iff] at h
    have hvalues : members.map (fun m => (m.1, m.2.value.tree)) = members := by
      rw [List.map_congr_left (g := id) fun m hm => by rw [ih m hm (h.2 m hm)]; rfl, List.map_id]
    rw [value_obj_tree, hvalues, Ascending.sortMembers_eq h.1]
  | _ => rfl

/-! ## Reorderings -/

mutual
/-- Trees that differ in the order of members only. -/
inductive Reordered : Json → Json → Prop
  | null : Reordered .null .null
  | bool (b : Bool) : Reordered (.bool b) (.bool b)
  | int (n : Int) : Reordered (.int n) (.int n)
  | float (x : Binary64) : Reordered (.float x) (.float x)
  | str (s : String) : Reordered (.str s) (.str s)
  | arr {items others : List Json} (h : List.Forall₂ Reordered items others) :
    Reordered (.arr items) (.arr others)
  | obj {members inPlace others : List (String × Json)}
    (h : List.Forall₂ ReorderedMember members inPlace) (hperm : inPlace.Perm others) :
    Reordered (.obj members) (.obj others)

/-- Members of the same name with trees that differ in the order of members only. -/
inductive ReorderedMember : String × Json → String × Json → Prop
  | mk (name : String) {value other : Json} (h : Reordered value other) :
    ReorderedMember (name, value) (name, other)
end

theorem Reordered.eq_int {n : Int} {tree : Json} (h : (Json.int n).Reordered tree) :
    tree = .int n := by
  cases h
  rfl

theorem Reordered.eq_str {s : String} {tree : Json} (h : (Json.str s).Reordered tree) :
    tree = .str s := by
  cases h
  rfl

/-- The order that members are in is one of the orders. -/
theorem Reordered.refl (tree : Json) : tree.Reordered tree := by
  induction tree using Json.induction with
  | null => exact .null
  | bool b => exact .bool b
  | int n => exact .int n
  | float x => exact .float x
  | str s => exact .str s
  | arr items ih => exact .arr (List.forall₂_same.2 ih)
  | obj members ih =>
    exact .obj (List.forall₂_same.2 fun m hm => .mk m.1 (ih m hm)) (.refl _)

mutual
/-- No object names a member twice. -/
def Distinct : Json → Prop
  | .arr items => DistinctItems items
  | .obj members => (names members).Nodup ∧ DistinctMembers members
  | _ => True

/-- No object in the items names a member twice. -/
def DistinctItems : List Json → Prop
  | [] => True
  | item :: items => item.Distinct ∧ DistinctItems items

/-- No object in the values of the members names a member twice. -/
def DistinctMembers : List (String × Json) → Prop
  | [] => True
  | (_, value) :: members => value.Distinct ∧ DistinctMembers members
end

theorem distinctItems_iff {items : List Json} :
    DistinctItems items ↔ ∀ item ∈ items, item.Distinct := by
  induction items with
  | nil => simp [DistinctItems]
  | cons item items ih => simp [DistinctItems, ih]

theorem distinctMembers_iff : DistinctMembers members ↔ ∀ m ∈ members, m.2.Distinct := by
  induction members with
  | nil => simp [DistinctMembers]
  | cons m members ih => simp [DistinctMembers, ih]

/-- A canonical tree names no member twice. -/
theorem Canonical.distinct {tree : Json} (h : tree.Canonical) : tree.Distinct := by
  induction tree using Json.induction with
  | arr items ih =>
    rw [Canonical, canonicalItems_iff] at h
    exact distinctItems_iff.2 fun item hitem => ih item hitem (h item hitem)
  | obj members ih =>
    rw [Canonical, canonicalMembers_iff] at h
    exact ⟨Ascending.nodup h.1, distinctMembers_iff.2 fun m hm => ih m hm (h.2 m hm)⟩
  | _ => trivial

/-- The canonical tree of the value has all members, in ascending order. -/
theorem Distinct.reordered_value {tree : Json} (h : tree.Distinct) :
    tree.Reordered tree.value.tree := by
  induction tree using Json.induction with
  | null => exact .null
  | bool b => exact .bool b
  | int n => exact .int n
  | float x => exact .float x
  | str s => exact .str s
  | arr items ih =>
    have hitems := distinctItems_iff.1 h
    rw [value_arr_tree]
    exact .arr (List.forall₂_map_right_iff.2
      (List.forall₂_same.2 fun item hitem => ih item hitem (hitems item hitem)))
  | obj members ih =>
    have hmembers := distinctMembers_iff.1 h.2
    have hnames : names (members.map fun m => (m.1, m.2.value.tree)) = names members := by
      rw [names, List.map_map]
      rfl
    rw [value_obj_tree]
    refine .obj (List.forall₂_map_right_iff.2
      (List.forall₂_same.2 fun m hm => .mk m.1 (ih m hm (hmembers m hm)))) ?_
    exact (sortMembers_perm (hnames ▸ h.1)).symm

/-- Reordering members does not change the value. -/
theorem Reordered.value_eq {tree other : Json} (h : tree.Reordered other) (hd : tree.Distinct) :
    other.value = tree.value := by
  induction tree using Json.induction generalizing other with
  | arr items ih =>
    cases h with | @arr _ others h =>
    have hitems := distinctItems_iff.1 hd
    have hvalues : others.map value = items.map value :=
      forall₂_map_eq h fun item hitem _ hother => ih item hitem hother (hitems item hitem)
    rw [value_arr, value_arr, hvalues]
  | obj members ih =>
    cases h with | @obj _ inPlace others h hperm =>
    have hmembers := distinctMembers_iff.1 hd.2
    -- The values are the same in place, and sorting does not see in which order they come.
    let valued (m : String × Json) : String × Json := (m.1, m.2.value.tree)
    have hvalues : inPlace.map valued = members.map valued := by
      refine forall₂_map_eq h fun m hm o hmo => ?_
      obtain ⟨name, hmo⟩ := hmo
      exact congrArg (fun v : JsonValue => (name, v.tree)) (ih _ hm hmo (hmembers _ hm))
    have hnames : (names (members.map valued)).Nodup := by
      rw [names, List.map_map]
      exact hd.1
    have hsort : sortMembers (others.map valued) = sortMembers (members.map valued) :=
      sortMembers_eq_of_perm hnames (hvalues ▸ hperm.map valued)
    apply JsonValue.eq_of_tree_eq
    rw [value_obj_tree, value_obj_tree]
    exact congrArg Json.obj hsort
  | _ => cases h; rfl

/-! ## Trees with whole numbers -/

/-- Whether a whole number has 64 bits, be it signed or not. -/
def Fits (n : Int) : Prop := -9223372036854775808 ≤ n ∧ n ≤ 18446744073709551615

mutual
/-- All numbers in the tree are whole and have 64 bits. -/
def Whole : Json → Prop
  | .int n => Fits n
  | .float _ => False
  | .arr items => WholeItems items
  | .obj members => WholeMembers members
  | _ => True

/-- All numbers in the items are whole and have 64 bits. -/
def WholeItems : List Json → Prop
  | [] => True
  | item :: items => item.Whole ∧ WholeItems items

/-- All numbers in the members are whole and have 64 bits. -/
def WholeMembers : List (String × Json) → Prop
  | [] => True
  | (_, value) :: members => value.Whole ∧ WholeMembers members
end

theorem wholeItems_iff {items : List Json} : WholeItems items ↔ ∀ item ∈ items, item.Whole := by
  induction items with
  | nil => simp [WholeItems]
  | cons item items ih => simp [WholeItems, ih]

theorem wholeMembers_iff : WholeMembers members ↔ ∀ m ∈ members, m.2.Whole := by
  induction members with
  | nil => simp [WholeMembers]
  | cons m members ih => simp [WholeMembers, ih]

end Json

end ActionBook
