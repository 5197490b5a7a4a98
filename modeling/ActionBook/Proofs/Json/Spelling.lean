import ActionBook.Proofs.Json.Numerals
import ActionBook.Proofs.Json.Quoting
import ActionBook.Proofs.Json.Tree

/-!
# `Json.Spelling`: the texts of a tree

`Spells tree text` says that `text` is a way to write `tree`: any blank characters between tokens,
numbers with or without fraction and exponent, texts with or without escapes. The reader gives the tree
back for every such text, whatever follows it (`readValue_of_spells`), and three steps for every
character are enough for it.

A number stands for the tree that its parts are read as; a number beyond all floating-point numbers
spells no tree, and neither does a text with a lone surrogate.
-/

namespace ActionBook.Json

open Text (decimal)

/-! ## Spellings -/

/-- The sign of a number. -/
def NumberParts.sign (p : NumberParts) : List Char := if p.negative then ['-'] else []

mutual
/-- The text is a way to write the tree. -/
inductive Spells : Json → List Char → Prop
  | null : Spells .null ['n', 'u', 'l', 'l']
  | true : Spells (.bool true) ['t', 'r', 'u', 'e']
  | false : Spells (.bool false) ['f', 'a', 'l', 's', 'e']
  | number {p : NumberParts} {tree : Json} {text : List Char} (h : p.Spelled text)
    (hnode : p.node = .ofJson tree) : Spells tree (p.sign ++ text)
  | str {content text : List Char} (h : Quotes content text) :
    Spells (.str (String.ofList content)) text
  | noItems {gap : List Char} (hgap : Gap gap) : Spells (.arr []) ('[' :: gap ++ [']'])
  | arr {items : List Json} {text : List Char} (h : SpellsItems items text) :
    Spells (.arr items) ('[' :: text)
  | noMembers {gap : List Char} (hgap : Gap gap) : Spells (.obj []) ('{' :: gap ++ ['}'])
  | obj {members : List (String × Json)} {text : List Char} (h : SpellsMembers members text) :
    Spells (.obj members) ('{' :: text)

/-- The text is a way to write the items of a list, of which there is at least one, and to end the
list. -/
inductive SpellsItems : List Json → List Char → Prop
  | last {item : Json} {before text after : List Char} (hbefore : Gap before)
    (h : Spells item text) (hafter : Gap after) :
    SpellsItems [item] (before ++ (text ++ (after ++ [']'])))
  | cons {item : Json} {items : List Json} {before text after more : List Char}
    (hbefore : Gap before) (h : Spells item text) (hafter : Gap after)
    (hmore : SpellsItems items more) :
    SpellsItems (item :: items) (before ++ (text ++ (after ++ ',' :: more)))

/-- The text is a way to write a name and its value. -/
inductive SpellsMember : String × Json → List Char → Prop
  | mk {content label : List Char} {value : Json} {before after text : List Char}
    (hname : Quotes content label) (hbefore : Gap before) (hafter : Gap after)
    (h : Spells value text) :
    SpellsMember (String.ofList content, value) (label ++ (before ++ ':' :: (after ++ text)))

/-- The text is a way to write the members of a record, of which there is at least one, and to end
the record. -/
inductive SpellsMembers : List (String × Json) → List Char → Prop
  | last {member : String × Json} {before text after : List Char} (hbefore : Gap before)
    (h : SpellsMember member text) (hafter : Gap after) :
    SpellsMembers [member] (before ++ (text ++ (after ++ ['}'])))
  | cons {member : String × Json} {members : List (String × Json)}
    {before text after more : List Char} (hbefore : Gap before) (h : SpellsMember member text)
    (hafter : Gap after) (hmore : SpellsMembers members more) :
    SpellsMembers (member :: members) (before ++ (text ++ (after ++ ',' :: more)))
end

theorem spells_integer {n : Int} (h : Fits n) : Spells (.int n) (Text.integer n) := by
  cases n with
  | ofNat n => exact .number (spelled_decimal false n) (node_natural (Int.ofNat_le.1 h.2))
  | negSucc n =>
    have hn : n + 1 ≤ 9223372036854775808 := by
      have := h.1
      omega
    exact .number (spelled_decimal true (n + 1)) (node_negative n.succ_pos hn)

theorem spells_quote (s : String) : Spells (.str s) (quote s) := by
  have hquotes := Spells.str (quotes_quote s)
  rwa [String.ofList_toList] at hquotes

/-! ## Reading -/

theorem ne_of_isDigit {c d : Char} (hc : Text.isDigit c) (hd : ¬ Text.isDigit d) : c ≠ d :=
  fun heq => hd (heq ▸ hc)

/-- A character that can start a value. -/
def Opens (c : Char) : Prop := ¬ isGap c ∧ c ≠ ']'

theorem Opens.of_isDigit {c : Char} (h : Text.isDigit c) : Opens c :=
  ⟨fun hgap => not_isDigit_of_isGap hgap h, ne_of_isDigit h (by decide)⟩

theorem NumberParts.Spelled.exists_digit {p : NumberParts} {text : List Char} (h : p.Spelled text) :
    ∃ c more, text = c :: more ∧ Text.isDigit c := by
  obtain ⟨⟨⟨hne, hdigits⟩, -⟩, fraction, power, -, -, rfl⟩ := h
  obtain ⟨c, more, heq⟩ := List.exists_cons_of_ne_nil hne
  rw [heq] at hdigits ⊢
  exact ⟨c, _, rfl, hdigits c List.mem_cons_self⟩

theorem Quotes.exists_cons {content text : List Char} (h : Quotes content text) :
    ∃ more, text = '"' :: more := by
  obtain ⟨units, pieces, -, -, rfl⟩ := h
  exact ⟨_, rfl⟩

theorem Spells.exists_opens {tree : Json} {text : List Char} (h : Spells tree text) :
    ∃ c more, text = c :: more ∧ Opens c := by
  cases h
  case number p text hp hnode =>
    obtain ⟨c, more, rfl, hc⟩ := hp.exists_digit
    rw [NumberParts.sign]
    split
    · exact ⟨'-', _, rfl, by decide, by decide⟩
    · exact ⟨c, more, rfl, .of_isDigit hc⟩
  case str h =>
    obtain ⟨more, rfl⟩ := h.exists_cons
    exact ⟨_, _, rfl, by decide, by decide⟩
  all_goals exact ⟨_, _, rfl, by decide, by decide⟩

theorem readValue_gap {gap : List Char} (h : Gap gap) (fuel : Nat) (text : List Char) :
    readValue (fuel + 1) (gap ++ text) = readValue (fuel + 1) text := by
  rw [readValue, readValue, skipGap_append h]

theorem readValue_digit {c : Char} (h : Text.isDigit c) (fuel : Nat) (text : List Char) :
    readValue (fuel + 1) (c :: text) = readNumber false (c :: text) := by
  have hne : ∀ {d}, ¬ Text.isDigit d → c ≠ d := ne_of_isDigit h
  rw [readValue, skipGap_cons (Opens.of_isDigit h).1]
  simp only [if_neg (hne (d := '"') (by decide)), if_neg (hne (d := '[') (by decide)),
    if_neg (hne (d := '{') (by decide)), if_neg (hne (d := 'n') (by decide)),
    if_neg (hne (d := 't') (by decide)), if_neg (hne (d := 'f') (by decide)),
    if_neg (hne (d := '-') (by decide)), if_pos h]

theorem readValue_number {p : NumberParts} {text : List Char} (h : p.Spelled text)
    {rest : List Char} (hrest : Follows rest) (fuel : Nat) :
    readValue (fuel + 1) (p.sign ++ text ++ rest) = (p.node, some rest) := by
  have hread := readNumber_of_spelled h hrest
  rw [NumberParts.sign]
  cases hsign : p.negative with
  | true =>
    rw [hsign] at hread
    exact hread
  | false =>
    obtain ⟨c, more, rfl, hc⟩ := h.exists_digit
    rw [hsign] at hread
    exact (readValue_digit hc fuel (more ++ rest)).trans hread

theorem readValue_text {content text : List Char} (h : Quotes content text) (rest : List Char)
    (fuel : Nat) :
    readValue (fuel + 1) (text ++ rest) = (.text (String.ofList content), some rest) := by
  obtain ⟨inner, heq, hscan⟩ := scanText_of_quotes h rest
  have hread : readValue (fuel + 1) ('"' :: inner) = readText inner := rfl
  rw [heq, hread, readText, hscan]

theorem readValue_list (fuel : Nat) (text : List Char) :
    readValue (fuel + 1) ('[' :: text) =
      (.list (readItems fuel true text).1 (readItems fuel true text).2.1,
        (readItems fuel true text).2.2) := rfl

theorem readValue_record (fuel : Nat) (text : List Char) :
    readValue (fuel + 1) ('\x7b' :: text) =
      (.record (readMembers fuel true text).1 (readMembers fuel true text).2.1,
        (readMembers fuel true text).2.2) := rfl

/-! ### Lists -/

theorem readItems_closed (fuel : Nat) (first : Bool) {gap : List Char} (h : Gap gap)
    (rest : List Char) :
    readItems (fuel + 1) first (gap ++ ']' :: rest) = ([], .closed, some rest) := by
  rw [readItems, skipGap_append h]
  rfl

theorem readItems_first {text : List Char} {c : Char} {more : List Char}
    (h : skipGap text = c :: more) (hc : c ≠ ']') (fuel : Nat) :
    readItems (fuel + 1) true text = readItem fuel (skipGap text) := by
  rw [readItems, h]
  simp only [if_neg hc, if_true]

theorem readItems_next {gap text : List Char} {c : Char} {more : List Char} (hgap : Gap gap)
    (h : skipGap text = c :: more) (hc : c ≠ ']') (fuel : Nat) :
    readItems (fuel + 1) false (gap ++ ',' :: text) = readItem fuel (skipGap text) := by
  rw [readItems, skipGap_append hgap, skipGap_cons (by decide)]
  simp [h, hc]

theorem readItem_of_readValue {fuel : Nat} {node : Node} {text rest : List Char}
    (h : readValue fuel text = (node, some rest)) :
    readItem (fuel + 1) text =
      (node :: (readItems fuel false rest).1, (readItems fuel false rest).2) := by
  rw [readItem, h]

/-- The gap before an item is skipped. -/
theorem Spells.skipGap_append {tree : Json} {text : List Char} (h : Spells tree text)
    {gap : List Char} (hgap : Gap gap) (rest : List Char) :
    skipGap (gap ++ (text ++ rest)) = text ++ rest := by
  obtain ⟨c, more, rfl, hc⟩ := h.exists_opens
  rw [Json.skipGap_append hgap, List.cons_append, skipGap_cons hc.1]

theorem Spells.exists_skipGap {tree : Json} {text : List Char} (h : Spells tree text)
    {gap : List Char} (hgap : Gap gap) (rest : List Char) :
    ∃ c more, skipGap (gap ++ (text ++ rest)) = c :: more ∧ c ≠ ']' := by
  obtain ⟨c, more, heq, hc⟩ := h.exists_opens
  rw [h.skipGap_append hgap, heq]
  exact ⟨c, _, rfl, hc.2⟩

/-- What follows the gap before the first item does not end the list. -/
theorem SpellsItems.exists_skipGap {items : List Json} {text : List Char}
    (h : SpellsItems items text) (rest : List Char) :
    ∃ c more, skipGap (text ++ rest) = c :: more ∧ c ≠ ']' := by
  cases h with
  | last hbefore h hafter =>
    rw [List.append_assoc, List.append_assoc]
    exact h.exists_skipGap hbefore _
  | cons hbefore h hafter hmore =>
    rw [List.append_assoc, List.append_assoc]
    exact h.exists_skipGap hbefore _

/-! ### Records -/

theorem readMembers_closed (fuel : Nat) (first : Bool) {gap : List Char} (h : Gap gap)
    (rest : List Char) :
    readMembers (fuel + 1) first (gap ++ '}' :: rest) = ([], .closed, some rest) := by
  rw [readMembers, skipGap_append h]
  rfl

theorem readMembers_first {text more : List Char} (h : skipGap text = '"' :: more) (fuel : Nat) :
    readMembers (fuel + 1) true text = readMember fuel (skipGap text) := by
  rw [readMembers, h]
  rfl

theorem readMembers_next {gap text more : List Char} (hgap : Gap gap)
    (h : skipGap text = '"' :: more) (fuel : Nat) :
    readMembers (fuel + 1) false (gap ++ ',' :: text) = readMember fuel (skipGap text) := by
  rw [readMembers, skipGap_append hgap, skipGap_cons (by decide)]
  simp [h]

theorem readMember_of_readValue {fuel : Nat} {content label : List Char} {node : Node}
    {gap text rest : List Char} (hname : Quotes content label) (hgap : Gap gap)
    (h : readValue fuel text = (node, some rest)) :
    readMember (fuel + 1) (label ++ (gap ++ ':' :: text)) =
      ((some (String.ofList content), node) :: (readMembers fuel false rest).1,
        (readMembers fuel false rest).2) := by
  obtain ⟨inner, heq, hscan⟩ := scanText_of_quotes hname (gap ++ ':' :: text)
  rw [heq, readMember, hscan]
  simp only [skipGap_append hgap, skipGap_cons (c := ':') (by decide), if_true, h, Option.map_some]

/-- The gap before a member is skipped. -/
theorem SpellsMember.skipGap_append {member : String × Json} {text : List Char}
    (h : SpellsMember member text) {gap : List Char} (hgap : Gap gap) (rest : List Char) :
    skipGap (gap ++ (text ++ rest)) = text ++ rest := by
  obtain ⟨hname, -, -, -⟩ := h
  obtain ⟨more, rfl⟩ := hname.exists_cons
  rw [Json.skipGap_append hgap]
  exact skipGap_cons (by decide) _

theorem SpellsMember.exists_skipGap {member : String × Json} {text : List Char}
    (h : SpellsMember member text) {gap : List Char} (hgap : Gap gap) (rest : List Char) :
    ∃ more, skipGap (gap ++ (text ++ rest)) = '"' :: more := by
  rw [h.skipGap_append hgap]
  obtain ⟨hname, -, -, -⟩ := h
  obtain ⟨more, rfl⟩ := hname.exists_cons
  exact ⟨_, rfl⟩

/-- What follows the gap before the first member is the quote of its name. -/
theorem SpellsMembers.exists_skipGap {members : List (String × Json)} {text : List Char}
    (h : SpellsMembers members text) (rest : List Char) :
    ∃ more, skipGap (text ++ rest) = '"' :: more := by
  cases h with
  | last hbefore h hafter =>
    rw [List.append_assoc, List.append_assoc]
    exact h.exists_skipGap hbefore _
  | cons hbefore h hafter hmore =>
    rw [List.append_assoc, List.append_assoc]
    exact h.exists_skipGap hbefore _

/-! ### Trees -/

mutual
/-- A text that spells a tree is read as that tree, and reading goes on after it. -/
theorem readValue_of_spells {tree : Json} {text : List Char} (h : Spells tree text)
    {rest : List Char} (hrest : Follows rest) (fuel : Nat) (hfuel : 3 * text.length ≤ fuel) :
    readValue fuel (text ++ rest) = (Node.ofJson tree, some rest) := by
  -- Every text has a character, so there are steps for a bracket and for what follows it.
  obtain ⟨c, more, heq, -⟩ := h.exists_opens
  have hlength : text.length = more.length + 1 := by rw [heq, List.length_cons]
  obtain ⟨fuel, rfl⟩ : ∃ f, fuel = f + 2 := ⟨fuel - 2, by omega⟩
  match h with
  | .null => rfl
  | .true => rfl
  | .false => rfl
  | .number h hnode => rw [readValue_number h hrest, hnode]
  | .str h => exact readValue_text h rest (fuel + 1)
  | .noItems hgap =>
    rw [List.append_assoc, List.cons_append, readValue_list, List.singleton_append,
      readItems_closed _ _ hgap]
    rfl
  | .arr h =>
    obtain ⟨d, rest', hskip, hd⟩ := h.exists_skipGap rest
    have hitems := readItem_of_spells h rest fuel (by rw [List.length_cons] at hfuel; omega)
    rw [List.cons_append, readValue_list, readItems_first hskip hd, hitems]
    rfl
  | .noMembers hgap =>
    rw [List.append_assoc, List.cons_append, readValue_record, List.singleton_append,
      readMembers_closed _ _ hgap]
    rfl
  | .obj h =>
    obtain ⟨rest', hskip⟩ := h.exists_skipGap rest
    have hmembers := readMember_of_spells h rest fuel (by rw [List.length_cons] at hfuel; omega)
    rw [List.cons_append, readValue_record, readMembers_first hskip, hmembers]
    rfl

/-- The items of a list are read up to its end. -/
theorem readItem_of_spells {items : List Json} {text : List Char} (h : SpellsItems items text)
    (rest : List Char) (fuel : Nat) (hfuel : 3 * text.length ≤ fuel) :
    readItem fuel (skipGap (text ++ rest)) = (Node.ofItems items, .closed, some rest) := by
  -- A step for the item and one for what comes after it: neither of the two is the whole text, so
  -- that each is given the three steps that its characters ask for.
  match h with
  | @SpellsItems.last _ _ _ after hbefore h hafter =>
    simp only [List.length_append, List.length_cons, List.length_nil] at hfuel
    obtain ⟨fuel, rfl⟩ : ∃ f, fuel = f + 2 := ⟨fuel - 2, by omega⟩
    have hfollows : Follows (after ++ ']' :: rest) :=
      .gap_append hafter (.of_cons (.inr (.inr (.inl rfl))) rest)
    have hitem := readValue_of_spells h hfollows (fuel + 1) (by omega)
    have hclosed := readItems_closed fuel false hafter rest
    simp only [List.append_assoc, List.singleton_append]
    rw [h.skipGap_append hbefore, readItem_of_readValue hitem, hclosed]
    rfl
  | @SpellsItems.cons _ _ _ _ after more hbefore h hafter hmore =>
    simp only [List.length_append, List.length_cons] at hfuel
    obtain ⟨fuel, rfl⟩ : ∃ f, fuel = f + 2 := ⟨fuel - 2, by omega⟩
    have hfollows : Follows (after ++ ',' :: (more ++ rest)) :=
      .gap_append hafter (.of_cons (.inr (.inl rfl)) _)
    have hitem := readValue_of_spells h hfollows (fuel + 1) (by omega)
    obtain ⟨d, rest', hskip, hd⟩ := hmore.exists_skipGap rest
    have hnext := readItems_next hafter hskip hd fuel
    have hitems := readItem_of_spells hmore rest fuel (by omega)
    simp only [List.append_assoc, List.cons_append]
    rw [h.skipGap_append hbefore, readItem_of_readValue hitem, hnext, hitems]
    rfl

/-- A member of a record is read up to what follows it. -/
theorem readMember_of_spellsMember {member : String × Json} {text : List Char}
    (h : SpellsMember member text) {rest : List Char} (hrest : Follows rest) (fuel : Nat)
    (hfuel : 3 * text.length ≤ fuel + 1) :
    readMember (fuel + 1) (text ++ rest) =
      ((some member.1, Node.ofJson member.2) :: (readMembers fuel false rest).1,
        (readMembers fuel false rest).2) := by
  match h with
  | @SpellsMember.mk _ _ _ _ after text hname hbefore hafter h =>
    simp only [List.length_append, List.length_cons] at hfuel
    obtain ⟨fuel, rfl⟩ : ∃ f, fuel = f + 1 := ⟨fuel - 1, by omega⟩
    have hvalue : readValue (fuel + 1) (after ++ (text ++ rest)) = (Node.ofJson _, some rest) :=
      (readValue_gap hafter fuel _).trans (readValue_of_spells h hrest (fuel + 1) (by omega))
    simp only [List.append_assoc, List.cons_append]
    exact readMember_of_readValue hname hbefore hvalue

/-- The members of a record are read up to its end. -/
theorem readMember_of_spells {members : List (String × Json)} {text : List Char}
    (h : SpellsMembers members text) (rest : List Char) (fuel : Nat)
    (hfuel : 3 * text.length ≤ fuel) :
    readMember fuel (skipGap (text ++ rest)) = (Node.ofMembers members, .closed, some rest) := by
  match h with
  | @SpellsMembers.last _ _ _ after hbefore h hafter =>
    simp only [List.length_append, List.length_cons, List.length_nil] at hfuel
    obtain ⟨fuel, rfl⟩ : ∃ f, fuel = f + 2 := ⟨fuel - 2, by omega⟩
    have hfollows : Follows (after ++ '}' :: rest) :=
      .gap_append hafter (.of_cons (.inr (.inr (.inr rfl))) rest)
    have hmember := readMember_of_spellsMember h hfollows (fuel + 1) (by omega)
    have hclosed := readMembers_closed fuel false hafter rest
    simp only [List.append_assoc, List.singleton_append]
    rw [h.skipGap_append hbefore, hmember, hclosed]
    rfl
  | @SpellsMembers.cons _ _ _ _ after more hbefore h hafter hmore =>
    simp only [List.length_append, List.length_cons] at hfuel
    obtain ⟨fuel, rfl⟩ : ∃ f, fuel = f + 2 := ⟨fuel - 2, by omega⟩
    have hfollows : Follows (after ++ ',' :: (more ++ rest)) :=
      .gap_append hafter (.of_cons (.inr (.inl rfl)) _)
    have hmember := readMember_of_spellsMember h hfollows (fuel + 1) (by omega)
    obtain ⟨rest', hskip⟩ := hmore.exists_skipGap rest
    have hnext := readMembers_next hafter hskip fuel
    have hmembers := readMember_of_spells hmore rest fuel (by omega)
    simp only [List.append_assoc, List.cons_append]
    rw [h.skipGap_append hbefore, hmember, hnext, hmembers]
    rfl
end

/-! ## Documents -/

/-- The text writes the tree and nothing else, with any blank characters around it. -/
def IsDocument (tree : Json) (text : List Char) : Prop :=
  ∃ before body after, Gap before ∧ Spells tree body ∧ Gap after ∧ text = before ++ (body ++ after)

/-- A value is decoded from a text that writes a tree as it is from the tree itself, in the reading of
texts. -/
theorem decodeText_of_isDocument {α : Type} (decode : Decoder α) {tree : Json} {text : List Char}
    (h : IsDocument tree text) : decodeText decode text = decode textReading (.ofJson tree) := by
  obtain ⟨before, body, after, hbefore, hbody, hafter, rfl⟩ := h
  have hfollows : Follows after := by
    simpa using Follows.gap_append hafter .nil
  have hempty : (skipGap after).isEmpty := by
    rw [skipGap, List.isEmpty_iff, List.dropWhile_eq_nil_iff]
    exact hafter
  have hlength : 3 * body.length ≤ 3 * (before ++ (body ++ after)).length + 2 + 1 := by
    simp only [List.length_append]
    omega
  rw [decodeText, readValue_gap hbefore, readValue_of_spells hbody hfollows _ hlength]
  simp only [hempty, if_true]
  cases decode textReading (.ofJson tree) <;> rfl

end ActionBook.Json
