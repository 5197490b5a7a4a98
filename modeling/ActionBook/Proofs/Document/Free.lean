import ActionBook.Document.Decoder
import ActionBook.Proofs.Json.Tree

/-!
# `Document.Free`: what is decoded without a shape

A free value is decoded from the nodes of trees and from no others: a node with a fault in it holds
none. The one thing asked of a tree is that it does not nest deeper than the reading allows
(`freeTree_eq_ok_iff`).
-/

namespace ActionBook

/-! ## Levels -/

namespace Json

mutual
/-- How many levels of lists and objects a tree has. -/
def nesting : Json → Nat
  | .arr items => itemNesting items + 1
  | .obj members => memberNesting members + 1
  | _ => 0

/-- The most levels that one of some items has. -/
def itemNesting : List Json → Nat
  | [] => 0
  | item :: items => max item.nesting (itemNesting items)

/-- The most levels that the value of one of some members has. -/
def memberNesting : List (String × Json) → Nat
  | [] => 0
  | (_, value) :: members => max value.nesting (memberNesting members)
end

end Json

/-- Whether values that take some levels can be read. -/
def Reading.Allows (r : Reading) (depth : Nat) : Prop := ∀ levels ∈ r.levels, depth ≤ levels

namespace Reading

variable {r inner : Reading} {depth less other : Nat}

theorem allows_zero : r.Allows 0 := fun _ _ => Nat.zero_le _

theorem Allows.mono (h : r.Allows depth) (hle : less ≤ depth) : r.Allows less :=
  fun levels hlevels => Nat.le_trans hle (h levels hlevels)

theorem allows_max : r.Allows (max depth other) ↔ r.Allows depth ∧ r.Allows other :=
  ⟨fun h => ⟨h.mono (Nat.le_max_left _ _), h.mono (Nat.le_max_right _ _)⟩,
    fun ⟨h, h'⟩ levels hlevels => Nat.max_le.2 ⟨h levels hlevels, h' levels hlevels⟩⟩

theorem Allows.exists_deeper (h : r.Allows (depth + 1)) :
    ∃ inner, r.deeper = .ok inner ∧ inner.Allows depth := by
  obtain ⟨levels, floats, surplus⟩ := r
  cases levels with
  | none => exact ⟨_, rfl, nofun⟩
  | some levels =>
    obtain ⟨levels, rfl⟩ : ∃ l, levels = l + 1 := ⟨levels - 1, by have := h levels rfl; omega⟩
    refine ⟨_, rfl, ?_⟩
    rintro _ ⟨⟩
    exact Nat.le_of_succ_le_succ (h _ rfl)

theorem Allows.of_deeper (hdeeper : r.deeper = .ok inner) (h : inner.Allows depth) :
    r.Allows (depth + 1) := by
  obtain ⟨levels, floats, surplus⟩ := r
  match levels with
  | none => exact nofun
  | some 0 => cases hdeeper
  | some (levels + 1) =>
    cases hdeeper
    rintro _ ⟨⟩
    exact Nat.succ_le_succ (h _ rfl)

theorem deeper_of_levels_eq_none (h : r.levels = none) : r.deeper = .ok r := by
  rw [deeper, h]

theorem allows_of_levels_eq_none (h : r.levels = none) : r.Allows depth := by
  rw [Allows, h]
  exact nofun

end Reading

namespace Decoder

open Json (itemNesting memberNesting itemValues memberValues)
open Node (ofJson ofItems ofMembers)

variable {r : Reading}

/-! ## Trees without faults -/

/-- A tree holds a free value if it may nest as deep as it does. -/
theorem freeTree_ofJson {tree : Json} (h : r.Allows tree.nesting) :
    freeTree r (ofJson tree) = .ok tree.value := by
  induction tree using Json.induction generalizing r with
  | arr items ih =>
    obtain ⟨inner, hdeeper, hinner⟩ := h.exists_deeper
    have hitems : freeItems inner (ofItems items) = .ok (itemValues items) := by
      clear h
      induction items with
      | nil => rfl
      | cons item items ihItems =>
        obtain ⟨hitem, hrest⟩ := List.forall_mem_cons.1 ih
        obtain ⟨hallows, hmore⟩ := Reading.allows_max.1 hinner
        rw [ofItems, freeItems, hitem hallows, ihItems hrest hmore]
        rfl
    simp only [ofJson, freeTree, hdeeper, hitems, bind, Except.bind, Ending.check, Json.value]
  | obj members ih =>
    obtain ⟨inner, hdeeper, hinner⟩ := h.exists_deeper
    have hmembers : freeMembers inner (ofMembers members) = .ok (memberValues members) := by
      clear h
      induction members with
      | nil => rfl
      | cons m members ihMembers =>
        obtain ⟨hm, hrest⟩ := List.forall_mem_cons.1 ih
        obtain ⟨hallows, hmore⟩ := Reading.allows_max.1 hinner
        rw [ofMembers, freeMembers, hm hallows, ihMembers hrest hmore]
        rfl
    simp only [ofJson, freeTree, hdeeper, hmembers, bind, Except.bind, Ending.check, Json.value]
  | _ => rfl

/-! ## Nodes with a free value -/

theorem exists_of_bind_eq_ok {ε α β : Type} {x : Except ε α} {f : α → Except ε β} {b : β}
    (h : x >>= f = .ok b) : ∃ a, x = .ok a ∧ f a = .ok b := by
  cases x with
  | error => cases h
  | ok a => exact ⟨a, rfl, h⟩

theorem of_check {ending : Ending} (h : ending.check = .ok ()) : ending = .closed := by
  cases ending with
  | closed => rfl
  | broken => cases h

mutual
/-- A node with a free value is the node of a tree with this value. -/
theorem of_freeTree {r : Reading} (node : Node) {v : JsonValue} (h : freeTree r node = .ok v) :
    ∃ tree, node = ofJson tree ∧ r.Allows tree.nesting ∧ tree.value = v := by
  match node with
  | .null => cases h; exact ⟨.null, rfl, Reading.allows_zero, rfl⟩
  | .bool b => cases h; exact ⟨.bool b, rfl, Reading.allows_zero, rfl⟩
  | .int n => cases h; exact ⟨.int n, rfl, Reading.allows_zero, rfl⟩
  | .float (.finite x) => cases h; exact ⟨.float x, rfl, Reading.allows_zero, rfl⟩
  | .text s => cases h; exact ⟨.str s, rfl, Reading.allows_zero, rfl⟩
  | .list nodes ending =>
    rw [freeTree] at h
    obtain ⟨inner, hdeeper, h⟩ := exists_of_bind_eq_ok h
    obtain ⟨values, hvalues, h⟩ := exists_of_bind_eq_ok h
    obtain ⟨_, hending, h⟩ := exists_of_bind_eq_ok h
    cases h
    obtain ⟨items, rfl, hallows, rfl⟩ := of_freeItems nodes hvalues
    exact ⟨.arr items, by rw [of_check hending, ofJson], hallows.of_deeper hdeeper, by rw [Json.value]⟩
  | .record nodes ending =>
    rw [freeTree] at h
    obtain ⟨inner, hdeeper, h⟩ := exists_of_bind_eq_ok h
    obtain ⟨values, hvalues, h⟩ := exists_of_bind_eq_ok h
    obtain ⟨_, hending, h⟩ := exists_of_bind_eq_ok h
    cases h
    obtain ⟨members, rfl, hallows, rfl⟩ := of_freeMembers nodes hvalues
    exact ⟨.obj members, by rw [of_check hending, ofJson], hallows.of_deeper hdeeper,
      by rw [Json.value]⟩

/-- Nodes with free values are the nodes of trees with these values. -/
theorem of_freeItems {r : Reading} (nodes : List Node) {values : List JsonValue}
    (h : freeItems r nodes = .ok values) :
    ∃ items, nodes = ofItems items ∧ r.Allows (itemNesting items) ∧ itemValues items = values := by
  match nodes with
  | [] => cases h; exact ⟨[], rfl, Reading.allows_zero, rfl⟩
  | node :: nodes =>
    rw [freeItems] at h
    obtain ⟨value, hvalue, h⟩ := exists_of_bind_eq_ok h
    obtain ⟨values, hvalues, h⟩ := exists_of_bind_eq_ok h
    cases h
    obtain ⟨item, rfl, hallows, rfl⟩ := of_freeTree node hvalue
    obtain ⟨items, rfl, hmore, rfl⟩ := of_freeItems nodes hvalues
    exact ⟨item :: items, rfl, Reading.allows_max.2 ⟨hallows, hmore⟩, rfl⟩

/-- Named nodes with free values are the nodes of members with these values. -/
theorem of_freeMembers {r : Reading} (nodes : List (Option String × Node))
    {values : List (String × JsonValue)} (h : freeMembers r nodes = .ok values) :
    ∃ members, nodes = ofMembers members ∧ r.Allows (memberNesting members) ∧
      memberValues members = values := by
  match nodes with
  | [] => cases h; exact ⟨[], rfl, Reading.allows_zero, rfl⟩
  | (none, _) :: _ => cases h
  | (some name, node) :: nodes =>
    rw [freeMembers] at h
    obtain ⟨value, hvalue, h⟩ := exists_of_bind_eq_ok h
    obtain ⟨values, hvalues, h⟩ := exists_of_bind_eq_ok h
    cases h
    obtain ⟨tree, rfl, hallows, rfl⟩ := of_freeTree node hvalue
    obtain ⟨members, rfl, hmore, rfl⟩ := of_freeMembers nodes hvalues
    exact ⟨(name, tree) :: members, rfl, Reading.allows_max.2 ⟨hallows, hmore⟩, rfl⟩
end

/-- Nodes of trees hold free values, and no other nodes do. -/
theorem freeTree_eq_ok_iff {node : Node} {v : JsonValue} :
    freeTree r node = .ok v ↔ ∃ tree, node = ofJson tree ∧ r.Allows tree.nesting ∧ tree.value = v := by
  refine ⟨of_freeTree node, ?_⟩
  rintro ⟨tree, rfl, hallows, rfl⟩
  exact freeTree_ofJson hallows

end Decoder

end ActionBook
