import ActionBook.Proofs.Document.Free
import ActionBook.Proofs.Json.Spelling

/-!
# `Json.Reading`: what is read of a text

Where the reader gives the tree of a value, the text before what it leaves spells this tree, with blank
characters in front (`spells_of_readValue`). Together with `readValue_of_spells` this tells what is read
of any text: a text is parsed just if it writes a tree of at most 127 levels and nothing else
(`parse_eq_ok_iff`).
-/

namespace ActionBook

namespace Node

/-! ## Nodes of trees -/

theorem ofJson_eq_text {tree : Json} {s : String} (h : ofJson tree = .text s) : tree = .str s := by
  cases tree <;> cases h
  rfl

theorem ofJson_eq_list {tree : Json} {nodes : List Node} {ending : Ending}
    (h : ofJson tree = .list nodes ending) :
    ∃ items, tree = .arr items ∧ nodes = ofItems items ∧ ending = .closed := by
  cases tree <;> cases h
  exact ⟨_, rfl, rfl, rfl⟩

theorem ofJson_eq_record {tree : Json} {nodes : List (Option String × Node)} {ending : Ending}
    (h : ofJson tree = .record nodes ending) :
    ∃ members, tree = .obj members ∧ nodes = ofMembers members ∧ ending = .closed := by
  cases tree <;> cases h
  exact ⟨_, rfl, rfl, rfl⟩

theorem ofItems_eq_cons {items : List Json} {node : Node} {nodes : List Node}
    (h : ofItems items = node :: nodes) :
    ∃ item more, items = item :: more ∧ node = ofJson item ∧ nodes = ofItems more := by
  cases items <;> cases h
  exact ⟨_, _, rfl, rfl, rfl⟩

theorem ofItems_eq_nil {items : List Json} (h : ofItems items = []) : items = [] := by
  cases items <;> cases h
  rfl

theorem ofMembers_eq_cons {members : List (String × Json)} {name? : Option String} {node : Node}
    {nodes : List (Option String × Node)} (h : ofMembers members = (name?, node) :: nodes) :
    ∃ name value more, members = (name, value) :: more ∧ name? = some name ∧ node = ofJson value ∧
      nodes = ofMembers more := by
  cases members with
  | nil => cases h
  | cons m more =>
    cases h
    exact ⟨_, _, _, rfl, rfl, rfl, rfl⟩

theorem ofMembers_eq_nil {members : List (String × Json)} (h : ofMembers members = []) :
    members = [] := by
  cases members with
  | nil => rfl
  | cons m more => cases h

end Node

namespace Json

open Node (ofJson ofItems ofMembers)

variable {text rest : List Char}

/-! ## Gaps and words -/

theorem exists_gap (text : List Char) : ∃ gap, Gap gap ∧ text = gap ++ skipGap text :=
  ⟨text.takeWhile isGap, fun _ => List.mem_takeWhile_imp, List.takeWhile_append_dropWhile.symm⟩

theorem SpellsItems.gap_append {items : List Json} {gap : List Char} (hgap : Gap gap)
    (h : SpellsItems items text) : SpellsItems items (gap ++ text) := by
  cases h with
  | last hbefore h hafter =>
    rw [← List.append_assoc]
    exact .last (List.forall_mem_append.2 ⟨hgap, hbefore⟩) h hafter
  | cons hbefore h hafter hmore =>
    rw [← List.append_assoc]
    exact .cons (List.forall_mem_append.2 ⟨hgap, hbefore⟩) h hafter hmore

theorem SpellsMembers.gap_append {members : List (String × Json)} {gap : List Char} (hgap : Gap gap)
    (h : SpellsMembers members text) : SpellsMembers members (gap ++ text) := by
  cases h with
  | last hbefore h hafter =>
    rw [← List.append_assoc]
    exact .last (List.forall_mem_append.2 ⟨hgap, hbefore⟩) h hafter
  | cons hbefore h hafter hmore =>
    rw [← List.append_assoc]
    exact .cons (List.forall_mem_append.2 ⟨hgap, hbefore⟩) h hafter hmore

theorem of_readWord {node read : Node} {word : List Char}
    (h : readWord node word text = (read, some rest)) : read = node ∧ text = word ++ rest := by
  induction word generalizing text with
  | nil =>
    cases h
    exact ⟨rfl, rfl⟩
  | cons w word ih =>
    cases text with
    | nil => cases h
    | cons c text =>
      rw [readWord] at h
      split at h
      next heq =>
        obtain ⟨hread, htext⟩ := ih h
        exact ⟨hread, by rw [heq, htext, List.cons_append]⟩
      next => cases h

theorem spells_of_readText {tree : Json} (h : readText text = (ofJson tree, some rest)) :
    ∃ front, Spells tree front ∧ '"' :: text = front ++ rest := by
  rw [readText] at h
  split at h
  next content more hscan =>
    obtain ⟨hnode, hrest⟩ := Prod.mk.inj h
    cases hrest
    obtain ⟨front, hquotes, heq⟩ := quotes_of_scanText hscan
    rw [Node.ofJson_eq_text hnode.symm]
    exact ⟨front, .str hquotes, heq⟩
  next => cases tree <;> cases h
  next => cases congrArg Prod.snd h

theorem spells_of_readNumber {negative : Bool} {tree : Json}
    (h : readNumber negative text = (ofJson tree, some rest)) :
    ∃ front, Spells tree ((if negative then ['-'] else []) ++ front) ∧ text = front ++ rest := by
  obtain ⟨p, rfl, hnode, front, hspelled, rfl⟩ := spelled_of_readNumber h
  exact ⟨front, .number hspelled hnode.symm, rfl⟩

/-! ## Values -/

mutual
/-- What is read as a tree spells it. -/
theorem spells_of_readValue (fuel : Nat) {text rest : List Char} {tree : Json}
    (h : readValue fuel text = (ofJson tree, some rest)) :
    ∃ gap front, Gap gap ∧ Spells tree front ∧ text = gap ++ (front ++ rest) := by
  match fuel with
  | 0 => cases congrArg Prod.snd h
  | fuel + 1 =>
    obtain ⟨gap, hgap, htext⟩ := exists_gap text
    suffices hfront : ∃ front, Spells tree front ∧ skipGap text = front ++ rest by
      obtain ⟨front, hspells, hskip⟩ := hfront
      exact ⟨gap, front, hgap, hspells, by rw [← hskip, ← htext]⟩
    rw [readValue] at h
    split at h
    · cases congrArg Prod.snd h
    next c more hskip =>
      rw [hskip]
      -- the first character tells what is read
      split at h
      next heq => exact heq ▸ spells_of_readText h
      split at h
      next heq =>
        obtain ⟨hnode, hrest⟩ := Prod.mk.inj h
        obtain ⟨items, rfl, hitems, hending⟩ := Node.ofJson_eq_list hnode.symm
        have hread : readItems fuel true more = (ofItems items, .closed, some rest) :=
          Prod.ext hitems (Prod.ext hending hrest)
        rcases spells_of_readItems_first fuel hread with ⟨rfl, gap, hgap, rfl⟩ | ⟨front, hfront, rfl⟩
        · exact ⟨_, .noItems hgap, by simp [heq]⟩
        · exact ⟨_, .arr hfront, by rw [heq, List.cons_append]⟩
      split at h
      next heq =>
        obtain ⟨hnode, hrest⟩ := Prod.mk.inj h
        obtain ⟨members, rfl, hmembers, hending⟩ := Node.ofJson_eq_record hnode.symm
        have hread : readMembers fuel true more = (ofMembers members, .closed, some rest) :=
          Prod.ext hmembers (Prod.ext hending hrest)
        rcases spells_of_readMembers_first fuel hread with
          ⟨rfl, gap, hgap, rfl⟩ | ⟨front, hfront, rfl⟩
        · exact ⟨_, .noMembers hgap, by simp [heq]⟩
        · exact ⟨_, .obj hfront, by rw [heq, List.cons_append]⟩
      split at h
      next heq =>
        obtain ⟨hnode, rfl⟩ := of_readWord h
        cases tree <;> cases hnode
        exact ⟨_, .null, by rw [heq]; rfl⟩
      split at h
      next heq =>
        obtain ⟨hnode, rfl⟩ := of_readWord h
        cases tree <;> cases hnode
        exact ⟨_, .true, by rw [heq]; rfl⟩
      split at h
      next heq =>
        obtain ⟨hnode, rfl⟩ := of_readWord h
        cases tree <;> cases hnode
        exact ⟨_, .false, by rw [heq]; rfl⟩
      split at h
      next heq =>
        obtain ⟨front, hfront, rfl⟩ := spells_of_readNumber h
        exact ⟨_, hfront, by rw [heq]; rfl⟩
      split at h
      next =>
        obtain ⟨front, hfront, heq⟩ := spells_of_readNumber h
        exact ⟨_, hfront, heq⟩
      next => cases congrArg Prod.snd h

/-- What is read after the bracket of a list spells its items. -/
theorem spells_of_readItems_first (fuel : Nat) {text rest : List Char} {items : List Json}
    (h : readItems fuel true text = (ofItems items, .closed, some rest)) :
    (items = [] ∧ ∃ gap, Gap gap ∧ text = gap ++ ']' :: rest) ∨
      ∃ front, SpellsItems items front ∧ text = front ++ rest := by
  match fuel with
  | 0 => cases congrArg (·.2.2) h
  | fuel + 1 =>
    obtain ⟨gap, hgap, htext⟩ := exists_gap text
    rw [readItems] at h
    split at h
    · cases congrArg (·.2.2) h
    next c more hskip =>
      rw [htext, hskip]
      split at h
      next heq =>
        obtain ⟨hitems, hrest⟩ := Prod.mk.inj h
        cases hrest
        exact .inl ⟨Node.ofItems_eq_nil hitems.symm, gap, hgap, by rw [heq]⟩
      next =>
        rw [if_pos rfl] at h
        obtain ⟨front, hfront, heq⟩ := spells_of_readItem fuel h
        exact .inr ⟨gap ++ front, hfront.gap_append hgap, by rw [heq, List.append_assoc]⟩

/-- What is read after an item of a list ends the list, or spells the items after a comma. -/
theorem spells_of_readItems_next (fuel : Nat) {text rest : List Char} {items : List Json}
    (h : readItems fuel false text = (ofItems items, .closed, some rest)) :
    ∃ after, Gap after ∧ (items = [] ∧ text = after ++ ']' :: rest ∨
      ∃ more, SpellsItems items more ∧ text = after ++ ',' :: (more ++ rest)) := by
  match fuel with
  | 0 => cases congrArg (·.2.2) h
  | fuel + 1 =>
    obtain ⟨gap, hgap, htext⟩ := exists_gap text
    refine ⟨gap, hgap, ?_⟩
    rw [readItems] at h
    split at h
    · cases congrArg (·.2.2) h
    next c more hskip =>
      rw [htext, hskip]
      split at h
      next heq =>
        obtain ⟨hitems, hrest⟩ := Prod.mk.inj h
        cases hrest
        exact .inl ⟨Node.ofItems_eq_nil hitems.symm, by rw [heq]⟩
      next =>
        rw [if_neg Bool.false_ne_true] at h
        split at h
        next heq =>
          obtain ⟨gap', hgap', hmore⟩ := exists_gap more
          split at h
          · cases congrArg (·.2.2) h
          next d more' hskip' =>
            split at h
            · cases congrArg (·.2.2) h
            next =>
              obtain ⟨front, hfront, heq'⟩ := spells_of_readItem fuel h
              refine .inr ⟨gap' ++ front, hfront.gap_append hgap', ?_⟩
              rw [heq, hmore, hskip', heq', List.append_assoc]
        next => cases congrArg (·.2.2) h

/-- What is read from an item of a list on spells the items. -/
theorem spells_of_readItem (fuel : Nat) {text rest : List Char} {items : List Json}
    (h : readItem fuel text = (ofItems items, .closed, some rest)) :
    ∃ front, SpellsItems items front ∧ text = front ++ rest := by
  match fuel with
  | 0 => cases congrArg (·.2.2) h
  | fuel + 1 =>
    rw [readItem] at h
    split at h
    · cases congrArg (·.2.2) h
    next node more hvalue =>
      obtain ⟨hnodes, hend⟩ := Prod.mk.inj h
      obtain ⟨item, items', rfl, rfl, hitems⟩ := Node.ofItems_eq_cons hnodes.symm
      obtain ⟨before, front, hbefore, hfront, rfl⟩ := spells_of_readValue fuel hvalue
      obtain ⟨after, hafter, hnext⟩ := spells_of_readItems_next fuel (Prod.ext hitems hend)
      rcases hnext with ⟨rfl, rfl⟩ | ⟨next, hnext, rfl⟩
      · exact ⟨_, .last hbefore hfront hafter, by simp⟩
      · exact ⟨_, .cons hbefore hfront hafter hnext, by simp⟩

/-- What is read after the brace of a record spells its members. -/
theorem spells_of_readMembers_first (fuel : Nat) {text rest : List Char}
    {members : List (String × Json)}
    (h : readMembers fuel true text = (ofMembers members, .closed, some rest)) :
    (members = [] ∧ ∃ gap, Gap gap ∧ text = gap ++ '}' :: rest) ∨
      ∃ front, SpellsMembers members front ∧ text = front ++ rest := by
  match fuel with
  | 0 => cases congrArg (·.2.2) h
  | fuel + 1 =>
    obtain ⟨gap, hgap, htext⟩ := exists_gap text
    rw [readMembers] at h
    split at h
    · cases congrArg (·.2.2) h
    next c more hskip =>
      rw [htext, hskip]
      split at h
      next heq =>
        obtain ⟨hmembers, hrest⟩ := Prod.mk.inj h
        cases hrest
        exact .inl ⟨Node.ofMembers_eq_nil hmembers.symm, gap, hgap, by rw [heq]⟩
      next =>
        rw [if_pos rfl] at h
        obtain ⟨front, hfront, heq⟩ := spells_of_readMember fuel h
        exact .inr ⟨gap ++ front, hfront.gap_append hgap, by rw [heq, List.append_assoc]⟩

/-- What is read after a member of a record ends the record, or spells the members after a comma. -/
theorem spells_of_readMembers_next (fuel : Nat) {text rest : List Char}
    {members : List (String × Json)}
    (h : readMembers fuel false text = (ofMembers members, .closed, some rest)) :
    ∃ after, Gap after ∧ (members = [] ∧ text = after ++ '}' :: rest ∨
      ∃ more, SpellsMembers members more ∧ text = after ++ ',' :: (more ++ rest)) := by
  match fuel with
  | 0 => cases congrArg (·.2.2) h
  | fuel + 1 =>
    obtain ⟨gap, hgap, htext⟩ := exists_gap text
    refine ⟨gap, hgap, ?_⟩
    rw [readMembers] at h
    split at h
    · cases congrArg (·.2.2) h
    next c more hskip =>
      rw [htext, hskip]
      split at h
      next heq =>
        obtain ⟨hmembers, hrest⟩ := Prod.mk.inj h
        cases hrest
        exact .inl ⟨Node.ofMembers_eq_nil hmembers.symm, by rw [heq]⟩
      next =>
        rw [if_neg Bool.false_ne_true] at h
        split at h
        next heq =>
          obtain ⟨gap', hgap', hmore⟩ := exists_gap more
          split at h
          · cases congrArg (·.2.2) h
          next d more' hskip' =>
            obtain ⟨front, hfront, heq'⟩ := spells_of_readMember fuel h
            refine .inr ⟨gap' ++ front, hfront.gap_append hgap', ?_⟩
            rw [heq, hmore, hskip', heq', List.append_assoc]
        next => cases congrArg (·.2.2) h

/-- What is read from a member of a record on spells the members. -/
theorem spells_of_readMember (fuel : Nat) {text rest : List Char} {members : List (String × Json)}
    (h : readMember fuel text = (ofMembers members, .closed, some rest)) :
    ∃ front, SpellsMembers members front ∧ text = front ++ rest := by
  match fuel with
  | 0 => cases congrArg (·.2.2) h
  | fuel + 1 =>
    unfold readMember at h
    split at h
    next inner =>
      split at h
      · cases congrArg (·.2.2) h
      next name? more hscan =>
        simp only at h
        obtain ⟨gap, hgap, hmore⟩ := exists_gap more
        split at h
        · cases congrArg (·.2.2) h
        next c more' hskip =>
          split at h
          next heq =>
            split at h
            · cases congrArg (·.2.2) h
            next node more'' hvalue =>
              obtain ⟨hnodes, hend⟩ := Prod.mk.inj h
              obtain ⟨name, value, members', rfl, hname, rfl, hmembers⟩ :=
                Node.ofMembers_eq_cons hnodes.symm
              obtain ⟨content, rfl, rfl⟩ := Option.map_eq_some_iff.1 hname
              obtain ⟨label, hlabel, hinner⟩ := quotes_of_scanText hscan
              obtain ⟨gap', front, hgap', hfront, rfl⟩ := spells_of_readValue fuel hvalue
              have hmember := SpellsMember.mk hlabel hgap hgap' hfront
              obtain ⟨after, hafter, hnext⟩ := spells_of_readMembers_next fuel (Prod.ext hmembers hend)
              rw [hinner, hmore, hskip, heq]
              rcases hnext with ⟨rfl, rfl⟩ | ⟨next, hnext, rfl⟩
              · exact ⟨_, .last .nil hmember hafter, by simp⟩
              · exact ⟨_, .cons .nil hmember hafter hnext, by simp⟩
          next => cases congrArg (·.2.2) h
    next => cases congrArg (·.2.2) h
end

/-! ## Documents -/

theorem allows_textReading {depth : Nat} : textReading.Allows depth ↔ depth ≤ 127 :=
  ⟨fun h => h 127 rfl, fun h levels hlevels => by cases hlevels; exact h⟩

theorem exists_of_parse {v : JsonValue} (h : parse text = .ok v) :
    ∃ tree : Json, tree.IsDocument text ∧ tree.nesting ≤ 127 ∧ tree.value = v := by
  rw [parse, decodeText] at h
  split at h
  next node rest? hread =>
    split at h
    · cases h
    next w hfree =>
      obtain ⟨tree, rfl, hallows, rfl⟩ := Decoder.freeTree_eq_ok_iff.1 hfree
      split at h
      next rest =>
        split at h
        next hempty =>
          cases h
          obtain ⟨before, body, hbefore, hbody, rfl⟩ := spells_of_readValue _ hread
          have hafter : Gap rest := List.dropWhile_eq_nil_iff.1 (List.isEmpty_iff.1 hempty)
          exact ⟨tree, ⟨before, body, rest, hbefore, hbody, hafter, rfl⟩,
            allows_textReading.1 hallows, rfl⟩
        next => cases h
      next => cases h

/-- A text is parsed if it writes a tree that is not too deep, and then it holds the value of this
tree. -/
theorem parse_eq_ok_iff {v : JsonValue} :
    parse text = .ok v ↔ ∃ tree : Json, tree.IsDocument text ∧ tree.nesting ≤ 127 ∧ tree.value = v := by
  refine ⟨exists_of_parse, ?_⟩
  rintro ⟨tree, htree, hnesting, rfl⟩
  rw [parse, decodeText_of_isDocument _ htree]
  exact Decoder.freeTree_eq_ok_iff.2 ⟨tree, rfl, allows_textReading.2 hnesting, rfl⟩

/-- No text is the value that it writes: there are quotes around its content. -/
theorem IsDocument.value_ne {tree : Json} (h : tree.IsDocument text) :
    tree.value ≠ .str (String.ofList text) := by
  intro hvalue
  obtain rfl : tree = .str (String.ofList text) := by
    cases tree <;> cases congrArg JsonValue.tree hvalue
    rfl
  obtain ⟨before, body, after, -, hbody, -, htext⟩ := h
  generalize hs : String.ofList text = s at hbody
  cases hbody with
  | number _ hnode => exact absurd hnode (NumberParts.node_ne_text _ s)
  | str hquotes =>
    have hlength := hquotes.length_lt
    rw [← String.ofList_inj.1 hs, htext] at hlength
    simp only [List.length_append] at hlength
    omega

end Json

end ActionBook
