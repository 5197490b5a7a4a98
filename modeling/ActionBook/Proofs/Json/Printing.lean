import ActionBook.Proofs.Json.Spelling
import Mathlib.Data.List.TakeWhile

/-!
# `Json.Printing`: printed trees are read back

Both ways to print a tree spell it, if it has no numbers but whole ones of 64 bits
(`spells_compact`, `spells_prettyAt`). So a value is decoded from a printed tree as it is from the
tree itself, up to the reading: texts may be nested less deeply (`decodeText_of_isDocument`).
-/

namespace ActionBook.Json

/-! ## Without blanks -/

theorem spellsItems_compact {items : List Json}
    (h : ∀ item ∈ items, Spells item (compact item)) (hne : items ≠ []) :
    SpellsItems items (compactItems items ++ [']']) := by
  induction items with
  | nil => exact absurd rfl hne
  | cons item items ih =>
    obtain ⟨hitem, hitems⟩ := List.forall_mem_cons.1 h
    cases items with
    | nil => exact .last .nil hitem .nil
    | cons next items =>
      have hnext := ih hitems (List.cons_ne_nil _ _)
      simpa [compactItems] using SpellsItems.cons .nil hitem .nil hnext

theorem spellsMember_compact {m : String × Json} (h : Spells m.2 (compact m.2)) :
    SpellsMember m (quote m.1 ++ ':' :: compact m.2) := by
  have hmember := SpellsMember.mk (quotes_quote m.1) .nil .nil h
  rwa [String.ofList_toList] at hmember

theorem spellsMembers_compact {members : List (String × Json)}
    (h : ∀ m ∈ members, Spells m.2 (compact m.2)) (hne : members ≠ []) :
    SpellsMembers members (compactMembers members ++ ['}']) := by
  induction members with
  | nil => exact absurd rfl hne
  | cons m members ih =>
    obtain ⟨hm, hmembers⟩ := List.forall_mem_cons.1 h
    have hmember := spellsMember_compact hm
    cases members with
    | nil => simpa [compactMembers] using SpellsMembers.last .nil hmember .nil
    | cons next members =>
      have hnext := ih hmembers (List.cons_ne_nil _ _)
      simpa [compactMembers] using SpellsMembers.cons .nil hmember .nil hnext

/-- A tree printed without blanks is spelled. -/
theorem spells_compact {tree : Json} (h : tree.Whole) : Spells tree (compact tree) := by
  induction tree using Json.induction with
  | null => exact .null
  | bool b => cases b <;> constructor
  | int n => exact spells_integer h
  | float x => exact h.elim
  | str s => exact spells_quote s
  | arr items ih =>
    have hitems := wholeItems_iff.1 h
    cases items with
    | nil => exact .noItems .nil
    | cons item items =>
      refine .arr (spellsItems_compact (fun i hi => ih i hi (hitems i hi)) (List.cons_ne_nil _ _))
  | obj members ih =>
    have hmembers := wholeMembers_iff.1 h
    cases members with
    | nil => exact .noMembers .nil
    | cons m members =>
      exact .obj (spellsMembers_compact (fun o ho => ih o ho (hmembers o ho)) (List.cons_ne_nil _ _))

/-! ## On lines -/

theorem gap_newLine (depth : Nat) : Gap (newLine depth) := by
  intro c hc
  rcases List.mem_cons.1 hc with rfl | hc
  · rfl
  · rw [List.eq_of_mem_replicate hc]
    rfl

theorem gap_space : Gap [' '] := by
  intro c hc
  rw [List.mem_singleton.1 hc]
  rfl

theorem spellsItems_pretty {depth : Nat} {items : List Json}
    (h : ∀ item ∈ items, Spells item (prettyAt depth item)) (hne : items ≠ [])
    {after : List Char} (hafter : Gap after) :
    SpellsItems items (prettyItems depth items ++ (after ++ [']'])) := by
  induction items with
  | nil => exact absurd rfl hne
  | cons item items ih =>
    obtain ⟨hitem, hitems⟩ := List.forall_mem_cons.1 h
    cases items with
    | nil =>
      simpa [prettyItems] using SpellsItems.last (gap_newLine depth) hitem hafter
    | cons next items =>
      have hnext := ih hitems (List.cons_ne_nil _ _)
      simpa [prettyItems] using SpellsItems.cons (gap_newLine depth) hitem .nil hnext

theorem spellsMember_pretty {depth : Nat} {m : String × Json}
    (h : Spells m.2 (prettyAt depth m.2)) :
    SpellsMember m (quote m.1 ++ [':', ' '] ++ prettyAt depth m.2) := by
  have hmember := SpellsMember.mk (quotes_quote m.1) .nil gap_space h
  simpa using hmember

theorem spellsMembers_pretty {depth : Nat} {members : List (String × Json)}
    (h : ∀ m ∈ members, Spells m.2 (prettyAt depth m.2)) (hne : members ≠ [])
    {after : List Char} (hafter : Gap after) :
    SpellsMembers members (prettyMembers depth members ++ (after ++ ['}'])) := by
  induction members with
  | nil => exact absurd rfl hne
  | cons m members ih =>
    obtain ⟨hm, hmembers⟩ := List.forall_mem_cons.1 h
    have hmember := spellsMember_pretty hm
    cases members with
    | nil =>
      simpa [prettyMembers] using SpellsMembers.last (gap_newLine depth) hmember hafter
    | cons next members =>
      have hnext := ih hmembers (List.cons_ne_nil _ _)
      simpa [prettyMembers] using SpellsMembers.cons (gap_newLine depth) hmember .nil hnext

/-- A tree printed on lines is spelled. -/
theorem spells_prettyAt {tree : Json} (h : tree.Whole) (depth : Nat) :
    Spells tree (prettyAt depth tree) := by
  induction tree using Json.induction generalizing depth with
  | null => exact .null
  | bool b => cases b <;> constructor
  | int n => exact spells_integer h
  | float x => exact h.elim
  | str s => exact spells_quote s
  | arr items ih =>
    have hitems := wholeItems_iff.1 h
    -- an empty list is closed up and has no line of its own
    cases items with
    | nil => exact .noItems .nil
    | cons item items =>
      have hlist := spellsItems_pretty (fun i hi => ih i hi (hitems i hi) (depth + 1))
        (List.cons_ne_nil _ _) (gap_newLine depth)
      simpa [prettyAt] using Spells.arr hlist
  | obj members ih =>
    have hmembers := wholeMembers_iff.1 h
    cases members with
    | nil => exact .noMembers .nil
    | cons m members =>
      have hrecord := spellsMembers_pretty (fun o ho => ih o ho (hmembers o ho) (depth + 1))
        (List.cons_ne_nil _ _) (gap_newLine depth)
      simpa [prettyAt] using Spells.obj hrecord

end ActionBook.Json
