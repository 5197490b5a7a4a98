import ActionBook.Json.Reader
import ActionBook.Proofs.Text.Digits
import Mathlib.Data.List.Forall2
import Mathlib.Tactic.SplitIfs

/-!
# `Json.Quoting`: texts between quotes

`Quotes content text` says that `text` is a way to write the content between quotes: its characters as
they are or by escapes, those of surrogates in pairs. Such a text is read back whole, whatever follows
its closing quote (`scanText_of_quotes`), and nothing else is (`quotes_of_scanText`). What `quote` writes
is one of the ways (`quotes_quote`).
-/

namespace ActionBook.Json

open Text (digitValue? hex ofDigits zeroPadded)

/-! ## Four hexadecimal digits -/

theorem fourDigits?_eq_some {a b c d : Char} (h : ∀ x ∈ [a, b, c, d], (digitValue? x).isSome) :
    fourDigits? a b c d = some (ofDigits 16 [a, b, c, d]) := by
  simp only [List.forall_mem_cons, Option.isSome_iff_exists] at h
  obtain ⟨⟨a', ha⟩, ⟨b', hb⟩, ⟨c', hc⟩, ⟨d', hd⟩, -⟩ := h
  simp [fourDigits?, ofDigits, ha, hb, hc, hd]

/-- Four digits are enough for a number below `0x10000`, and stand for it. -/
theorem exists_fourDigits?_hex {n : Nat} (h : n < 0x10000) :
    ∃ a b c d, zeroPadded 4 (hex n) = [a, b, c, d] ∧ fourDigits? a b c d = some n := by
  have hlength : (hex n).length ≤ 4 := Text.length_hex_le (by decide) h
  obtain ⟨a, b, c, d, habcd⟩ := List.length_eq_four.1 (Text.length_zeroPadded hlength)
  have hdigits : ∀ x ∈ [a, b, c, d], (digitValue? x).isSome := by
    rw [← habcd]
    exact fun x => Text.isSome_digitValue?_of_mem_zeroPadded_hex
  refine ⟨a, b, c, d, habcd, ?_⟩
  rw [fourDigits?_eq_some hdigits, ← habcd, Text.ofDigits_zeroPadded, Text.ofDigits_hex]

/-! ## One character -/

theorem scanUnits_of_four {a b c d : Char} {n : Nat} (h : fourDigits? a b c d = some n)
    (rest : List Char) :
    scanUnits ('\\' :: 'u' :: a :: b :: c :: d :: rest) =
      (.ofNumber n :: (scanUnits rest).1, (scanUnits rest).2) := by
  rw [scanUnits, h]

theorem ofNumber_of_lt {c : Char} (h : c.toNat < 0x20) : TextUnit.ofNumber c.toNat = .char c := by
  have hsurrogate : isSurrogate c.toNat = false := by
    rw [isSurrogate, Bool.and_eq_false_iff, decide_eq_false_iff_not]
    exact .inl (by omega)
  rw [TextUnit.ofNumber, hsurrogate, if_neg Bool.false_ne_true, Char.ofNat_toNat]

theorem scanUnits_of_letter {l e : Char} (hl : l ≠ 'u') (h : escapeLetter? l = some e)
    (rest : List Char) :
    scanUnits ('\\' :: l :: rest) = (.char e :: (scanUnits rest).1, (scanUnits rest).2) := by
  rw [scanUnits, h]
  all_goals intros; contradiction

theorem scanUnits_of_plain {c : Char} (hquote : c ≠ '"') (hback : c ≠ '\\') (h : ¬ c.toNat < 0x20)
    (rest : List Char) :
    scanUnits (c :: rest) = (.char c :: (scanUnits rest).1, (scanUnits rest).2) := by
  rw [scanUnits, if_neg h]
  all_goals intros; contradiction

/-- A way to write a unit of a text. -/
inductive UnitSpelled : TextUnit → List Char → Prop
  | plain {c : Char} (hquote : c ≠ '"') (hback : c ≠ '\\') (h : 0x20 ≤ c.toNat) :
    UnitSpelled (.char c) [c]
  | letter {l e : Char} (h : escapeLetter? l = some e) : UnitSpelled (.char e) ['\\', l]
  | digits {a b c d : Char} {n : Nat} (h : fourDigits? a b c d = some n) :
    UnitSpelled (.ofNumber n) ['\\', 'u', a, b, c, d]

theorem scanUnits_of_spelled {unit : TextUnit} {piece : List Char} (h : UnitSpelled unit piece)
    (rest : List Char) :
    scanUnits (piece ++ rest) = (unit :: (scanUnits rest).1, (scanUnits rest).2) := by
  cases h with
  | plain hquote hback h => exact scanUnits_of_plain hquote hback (Nat.not_lt.2 h) rest
  | letter h => exact scanUnits_of_letter (by rintro rfl; cases h) h rest
  | digits h => exact scanUnits_of_four h rest

/-- What is written for a character is one of the ways to write it. -/
theorem unitSpelled_escapedChar (c : Char) : UnitSpelled (.char c) (escapedChar c) := by
  unfold escapedChar
  -- Quote, backslash and five controls have a letter; the other controls have four digits, and all
  -- other characters stand for themselves.
  split_ifs with hquote hback h₁ h₂ h₃ h₄ h₅ hcontrol
  · exact .letter (by rw [hquote]; rfl)
  · exact .letter (by rw [hback]; rfl)
  · exact .letter (by rw [h₁]; rfl)
  · exact .letter (by rw [h₂]; rfl)
  · exact .letter (by rw [h₃]; rfl)
  · exact .letter (by rw [h₄]; rfl)
  · exact .letter (by rw [h₅]; rfl)
  · obtain ⟨x, y, z, w, hdigits, hvalue⟩ := exists_fourDigits?_hex (n := c.toNat) (by omega)
    rw [hdigits, ← ofNumber_of_lt hcontrol]
    exact .digits hvalue
  · exact .plain hquote hback (Nat.le_of_not_lt hcontrol)

/-! ## Texts -/

/-- The text is a way to write the content between quotes. -/
def Quotes (content text : List Char) : Prop :=
  ∃ units pieces, List.Forall₂ UnitSpelled units pieces ∧ joinUnits units = some content ∧
    text = '"' :: (pieces.flatten ++ ['"'])

theorem scanUnits_of_forall₂ {units : List TextUnit} {pieces : List (List Char)}
    (h : List.Forall₂ UnitSpelled units pieces) (rest : List Char) :
    scanUnits (pieces.flatten ++ '"' :: rest) = (units, .ok rest) := by
  induction h with
  | nil => rfl
  | cons hunit _ ih => rw [List.flatten_cons, List.append_assoc, scanUnits_of_spelled hunit, ih]

theorem exists_forall₂_of_scanUnits {text rest : List Char} {units : List TextUnit}
    (h : scanUnits text = (units, .ok rest)) :
    ∃ pieces, List.Forall₂ UnitSpelled units pieces ∧ text = pieces.flatten ++ '"' :: rest := by
  -- one more unit in front of those that are read after it
  have hcons {unit : TextUnit} {units : List TextUnit} {piece text : List Char}
      (hunit : UnitSpelled unit piece)
      (h : ∃ pieces, List.Forall₂ UnitSpelled units pieces ∧ text = pieces.flatten ++ '"' :: rest) :
      ∃ pieces, List.Forall₂ UnitSpelled (unit :: units) pieces ∧
        piece ++ text = pieces.flatten ++ '"' :: rest := by
    obtain ⟨pieces, hpieces, rfl⟩ := h
    exact ⟨piece :: pieces, .cons hunit hpieces, by rw [List.flatten_cons, List.append_assoc]⟩
  fun_induction scanUnits text generalizing units with
  | case2 => cases h; exact ⟨[], .nil, rfl⟩
  | case5 a b c d more n hdigits units more? hscan ih =>
    cases h
    exact hcons (.digits hdigits) (ih hscan)
  | case8 c more _ _ e hletter units more? hscan ih =>
    cases h
    exact hcons (.letter hletter) (ih hscan)
  | case10 c more hquote hend _ _ hback hlow units more? hscan ih =>
    cases h
    refine hcons (.plain hquote ?_ (Nat.le_of_not_lt hlow)) (ih hscan)
    rintro rfl
    cases more with
    | nil => exact hend rfl rfl
    | cons d more => exact hback d more rfl rfl
  | _ => cases h

/-- A text is scanned up to the quote that closes it. -/
theorem scanText_of_quotes {content text : List Char} (h : Quotes content text) (rest : List Char) :
    ∃ inner, text ++ rest = '"' :: inner ∧ scanText inner = .done (some content) rest := by
  obtain ⟨units, pieces, hpieces, hcontent, rfl⟩ := h
  refine ⟨pieces.flatten ++ '"' :: rest, by simp, ?_⟩
  rw [scanText, scanUnits_of_forall₂ hpieces]
  simp only [hcontent]

/-- What is scanned is a text between quotes. -/
theorem quotes_of_scanText {content inner rest : List Char}
    (h : scanText inner = .done (some content) rest) :
    ∃ text, Quotes content text ∧ '"' :: inner = text ++ rest := by
  rw [scanText] at h
  split at h
  next units more hscan =>
    obtain ⟨pieces, hpieces, rfl⟩ := exists_forall₂_of_scanUnits hscan
    rw [Scan.done.injEq] at h
    obtain ⟨hcontent, rfl⟩ := h
    exact ⟨_, ⟨units, pieces, hpieces, hcontent, rfl⟩, by simp⟩
  next => cases h

@[simp] theorem joinUnits_map_char (s : List Char) : joinUnits (s.map .char) = some s := by
  induction s with
  | nil => rfl
  | cons c s ih => rw [List.map_cons, joinUnits, ih, Option.map_some]

theorem length_le_of_joinUnits {units : List TextUnit} {content : List Char}
    (h : joinUnits units = some content) : content.length ≤ units.length := by
  fun_induction joinUnits units generalizing content with
  | case1 =>
    cases h
    exact Nat.le_refl _
  | case2 c units ih =>
    obtain ⟨content, hcontent, rfl⟩ := Option.map_eq_some_iff.1 h
    exact Nat.succ_le_succ (ih hcontent)
  | case4 high low units _ ih =>
    obtain ⟨content, hcontent, rfl⟩ := Option.map_eq_some_iff.1 h
    exact Nat.le_succ_of_le (Nat.succ_le_succ (ih hcontent))
  | _ => cases h

/-- Every unit takes a character at least, and so do the quotes. -/
theorem Quotes.length_lt {content text : List Char} (h : Quotes content text) :
    content.length < text.length := by
  obtain ⟨units, pieces, hpieces, hcontent, rfl⟩ := h
  have hunits : units.length ≤ pieces.flatten.length := by
    clear hcontent
    induction hpieces with
    | nil => exact Nat.le_refl _
    | cons hunit _ ih =>
      rw [List.flatten_cons, List.length_append]
      cases hunit <;> simp only [List.length_cons, List.length_nil] <;> omega
  have := length_le_of_joinUnits hcontent
  simp only [List.length_cons, List.length_append, List.length_nil]
  omega

theorem quotes_quote (s : String) : Quotes s.toList (quote s) := by
  refine ⟨s.toList.map .char, s.toList.map escapedChar, ?_, joinUnits_map_char _, ?_⟩
  · rw [List.forall₂_map_left_iff, List.forall₂_map_right_iff]
    exact List.forall₂_same.2 fun c _ => unitSpelled_escapedChar c
  · rw [quote, List.flatMap_def, List.cons_append]

end ActionBook.Json
