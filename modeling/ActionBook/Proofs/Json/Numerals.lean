import ActionBook.Json.Reader
import ActionBook.Proofs.Text.Cutting
import ActionBook.Proofs.Text.Digits
import Mathlib.Data.List.Basic
import Mathlib.Data.List.TakeWhile

/-!
# `Json.Numerals`: how numbers are written

`NumberParts.Spelled p text` says that `text` writes the parts `p` of a number after its sign. The reader
takes the longest such text from the front (`spelled_of_readNumber`), and takes all of one that is
followed by nothing that could go on with it (`readNumber_of_spelled`). What the parts stand for is
`NumberParts.node`; a whole number of 64 bits stands for itself.
-/

namespace ActionBook.Json

open Text (decimal digitValue? isDigit withDigits)

variable {text digits rest : List Char} {p : NumberParts}

/-! ## Blank characters between tokens -/

/-- A text of blank characters as they may stand between tokens. -/
abbrev Gap (text : List Char) : Prop := ∀ c ∈ text, isGap c

theorem Gap.nil : Gap [] := nofun

theorem skipGap_append {gap : List Char} (h : Gap gap) (text : List Char) :
    skipGap (gap ++ text) = skipGap text := List.dropWhile_append_of_pos h

theorem skipGap_cons {c : Char} (h : ¬ isGap c) (text : List Char) :
    skipGap (c :: text) = c :: text := List.dropWhile_cons_of_neg h

theorem not_isDigit_of_isGap {c : Char} (h : isGap c) : ¬ isDigit c := by
  simp only [isGap, Bool.or_eq_true, decide_eq_true_eq] at h
  rcases h with ((rfl | rfl) | rfl) | rfl <;> decide

/-! ## Digits -/

/-- Decimal digits, at least one. -/
def IsDigits (text : List Char) : Prop := text ≠ [] ∧ ∀ c ∈ text, isDigit c

/-- What stands before the point of a number: a zero, or digits that do not start with one. -/
def IsWholePart (text : List Char) : Prop :=
  IsDigits text ∧ (text.head? = some '0' → text = ['0'])

theorem isDigits_decimal (n : Nat) : IsDigits (decimal n) :=
  ⟨Text.decimal_ne_nil n, fun _ => Text.isDigit_of_mem_decimal⟩

theorem isWholePart_decimal (n : Nat) : IsWholePart (decimal n) := by
  refine ⟨isDigits_decimal n, fun hhead => ?_⟩
  obtain ⟨rest, hrest⟩ := List.head?_eq_some_iff.1 hhead
  rw [hrest, Text.eq_nil_of_decimal_eq_cons hrest]

/-- A text that does not start with a digit. -/
def NoDigit (text : List Char) : Prop := ∀ c ∈ text.head?, ¬ isDigit c

theorem IsDigits.takeWhile_append (h : IsDigits digits) (hrest : NoDigit rest) :
    (digits ++ rest).takeWhile isDigit = digits :=
  Text.takeWhile_append_of_head? h.2 fun c hc => eq_false_of_ne_true (hrest c hc)

theorem IsDigits.dropWhile_append (h : IsDigits digits) (hrest : NoDigit rest) :
    (digits ++ rest).dropWhile isDigit = rest :=
  Text.dropWhile_append_of_head? h.2 fun c hc => eq_false_of_ne_true (hrest c hc)

theorem isDigits_takeWhile (h : text.takeWhile isDigit ≠ []) : IsDigits (text.takeWhile isDigit) :=
  ⟨h, fun _ => List.mem_takeWhile_imp⟩

/-! ## Parts of a number -/

/-- A way to write the digits after the point: with the point, or nothing if there are none. -/
def FractionSpelled : Option (List Char) → List Char → Prop
  | none, text => text = []
  | some digits, text => IsDigits digits ∧ text = '.' :: digits

/-- A way to write the exponent: with its letter and with a sign or without one, or nothing if there is
none. -/
def PowerSpelled : Option Int → List Char → Prop
  | none, text => text = []
  | some e, text => ∃ letter ∈ ['e', 'E'], ∃ digits, IsDigits digits ∧
      (e = Int.ofNat (Text.ofDigits 10 digits) ∧
          (text = letter :: digits ∨ text = letter :: '+' :: digits) ∨
        e = -Int.ofNat (Text.ofDigits 10 digits) ∧ text = letter :: '-' :: digits)

/-- The text is a way to write the parts of a number after its sign. -/
def NumberParts.Spelled (p : NumberParts) (text : List Char) : Prop :=
  IsWholePart p.whole ∧ ∃ fraction power, FractionSpelled p.decimals fraction ∧
    PowerSpelled p.exponent power ∧ text = p.whole ++ (fraction ++ power)

/-! ## Reading -/

/-- A text that can follow a number: it does not go on with it. -/
def Follows (text : List Char) : Prop :=
  ∀ c rest, text = c :: rest → isGap c ∨ c = ',' ∨ c = ']' ∨ c = '}'

theorem Follows.nil : Follows [] := nofun

theorem Follows.of_cons {c : Char} (h : isGap c ∨ c = ',' ∨ c = ']' ∨ c = '}')
    (rest : List Char) : Follows (c :: rest) := by
  rintro _ _ ⟨⟩
  exact h

theorem Follows.gap_append {gap text : List Char} (h : Gap gap) (htext : Follows text) :
    Follows (gap ++ text) := by
  cases gap with
  | nil => exact htext
  | cons c gap => exact .of_cons (.inl (h c List.mem_cons_self)) _

/-- No character that can follow a number is a part of one. -/
theorem Follows.not_mem_number {c : Char} {rest : List Char} (h : Follows (c :: rest)) :
    ¬ isDigit c ∧ c ≠ '.' ∧ c ≠ 'e' ∧ c ≠ 'E' := by
  have hc := h c rest rfl
  simp only [isGap, Bool.or_eq_true, decide_eq_true_eq] at hc
  rcases hc with (((rfl | rfl) | rfl) | rfl) | rfl | rfl | rfl <;> decide

theorem Follows.noDigit (h : Follows rest) : NoDigit rest := by
  intro c hc
  obtain ⟨more, rfl⟩ := List.head?_eq_some_iff.1 hc
  exact h.not_mem_number.1

/-- Neither digits nor a point go on where an exponent could. -/
theorem PowerSpelled.head_ne {exponent : Option Int} {power : List Char}
    (h : PowerSpelled exponent power) (hrest : Follows rest) {c : Char} {more : List Char}
    (heq : power ++ rest = c :: more) : ¬ isDigit c ∧ c ≠ '.' := by
  cases exponent with
  | none =>
    obtain rfl : power = [] := h
    obtain rfl : rest = c :: more := heq
    exact ⟨hrest.not_mem_number.1, hrest.not_mem_number.2.1⟩
  | some e =>
    obtain ⟨letter, hletter, digits, -, ⟨-, rfl | rfl⟩ | ⟨-, rfl⟩⟩ := h
    all_goals
      cases heq
      rcases List.mem_pair.1 hletter with rfl | rfl <;> decide

theorem PowerSpelled.noDigit_append {exponent : Option Int} {power : List Char}
    (h : PowerSpelled exponent power) (hrest : Follows rest) : NoDigit (power ++ rest) := by
  intro c hc
  obtain ⟨more, heq⟩ := List.head?_eq_some_iff.1 hc
  exact (h.head_ne hrest heq).1

/-! ### Exponents -/

theorem readExponentDigits_of_isDigits (negative : Bool) (h : IsDigits digits) (hrest : Follows rest) :
    readExponentDigits p negative (digits ++ rest) =
      (NumberParts.node { p with exponent := some (if negative then -Int.ofNat (Text.ofDigits 10 digits)
        else Int.ofNat (Text.ofDigits 10 digits)) }, some rest) := by
  rw [readExponentDigits]
  simp only [h.takeWhile_append hrest.noDigit, h.dropWhile_append hrest.noDigit]
  rw [if_neg (by simpa using h.1)]

/-- The exponent of a number is read up to what follows it. -/
theorem readExponent_of_spelled (hp : p.exponent = none) {exponent : Option Int} {power : List Char}
    (h : PowerSpelled exponent power) (hrest : Follows rest) :
    readExponent p (power ++ rest) = (NumberParts.node { p with exponent }, some rest) := by
  cases exponent with
  | none =>
    obtain rfl : power = [] := h
    have hsame : { p with exponent := none } = p := by rw [← hp]
    rw [hsame, List.nil_append]
    cases rest with
    | nil => rfl
    | cons c rest =>
      have hletter : ¬ (c = 'e' ∨ c = 'E') := not_or.2 hrest.not_mem_number.2.2
      simp only [readExponent, if_neg hletter]
  | some e =>
    obtain ⟨letter, hletter, digits, hdigits, hsign⟩ := h
    have hletter : letter = 'e' ∨ letter = 'E' := List.mem_pair.1 hletter
    have hread (negative : Bool) := readExponentDigits_of_isDigits (p := p) negative hdigits hrest
    rcases hsign with ⟨rfl, rfl | rfl⟩ | ⟨rfl, rfl⟩
    · -- a digit is neither of the signs
      obtain ⟨d, more, rfl⟩ := List.exists_cons_of_ne_nil hdigits.1
      have hd : isDigit d := hdigits.2 d List.mem_cons_self
      have hread := hread false
      rw [List.cons_append] at hread
      simp only [List.cons_append, readExponent, if_pos hletter]
      split
      next heq => cases heq; exact absurd hd (by decide)
      next heq => cases heq; exact absurd hd (by decide)
      next => exact hread
    · simp only [List.cons_append, readExponent, if_pos hletter]
      exact hread false
    · simp only [List.cons_append, readExponent, if_pos hletter]
      exact hread true

theorem isDigits_of_readExponentDigits {negative : Bool} {node : Node}
    (h : readExponentDigits p negative text = (node, some rest)) :
    ∃ digits, IsDigits digits ∧ text = digits ++ rest ∧
      node = NumberParts.node { p with exponent := some (if negative
        then -Int.ofNat (Text.ofDigits 10 digits) else Int.ofNat (Text.ofDigits 10 digits)) } := by
  rw [readExponentDigits] at h
  simp only at h
  split at h
  · cases h
  next hne =>
    cases h
    exact ⟨_, isDigits_takeWhile (by simpa using hne), List.takeWhile_append_dropWhile.symm, rfl⟩

theorem spelled_of_readExponent {node : Node} (hp : p.exponent = none)
    (h : readExponent p text = (node, some rest)) :
    ∃ exponent power, PowerSpelled exponent power ∧ text = power ++ rest ∧
      node = NumberParts.node { p with exponent } := by
  have hsame : { p with exponent := none } = p := by rw [← hp]
  unfold readExponent at h
  split at h
  next c more =>
    split at h
    next hletter =>
      have hletter : c ∈ ['e', 'E'] := List.mem_pair.2 hletter
      split at h
      · obtain ⟨digits, hdigits, rfl, rfl⟩ := isDigits_of_readExponentDigits h
        exact ⟨some _, c :: '+' :: digits, ⟨c, hletter, digits, hdigits, .inl ⟨rfl, .inr rfl⟩⟩, rfl, rfl⟩
      · obtain ⟨digits, hdigits, rfl, rfl⟩ := isDigits_of_readExponentDigits h
        exact ⟨some _, c :: '-' :: digits, ⟨c, hletter, digits, hdigits, .inr ⟨rfl, rfl⟩⟩, rfl, rfl⟩
      · obtain ⟨digits, hdigits, rfl, rfl⟩ := isDigits_of_readExponentDigits h
        exact ⟨some _, c :: digits, ⟨c, hletter, digits, hdigits, .inl ⟨rfl, .inl rfl⟩⟩, rfl, rfl⟩
    next =>
      cases h
      exact ⟨none, [], rfl, rfl, by rw [hsame]⟩
  next =>
    cases h
    exact ⟨none, [], rfl, rfl, by rw [hsame]⟩

/-! ### Numbers -/

/-- The parts of a number are read up to what follows them. -/
theorem readNumber_of_spelled (h : p.Spelled text) (hrest : Follows rest) :
    readNumber p.negative (text ++ rest) = (p.node, some rest) := by
  obtain ⟨negative, whole, decimals, exponent⟩ := p
  obtain ⟨hwhole, fraction, power, hfraction, hpower, rfl⟩ := h
  simp only at hwhole hfraction hpower ⊢
  have hstop : NoDigit (fraction ++ (power ++ rest)) := by
    cases decimals with
    | none =>
      obtain rfl : fraction = [] := hfraction
      exact hpower.noDigit_append hrest
    | some digits =>
      obtain ⟨-, rfl⟩ := hfraction
      rintro _ ⟨⟩
      decide
  rw [readNumber, List.append_assoc, List.append_assoc]
  simp only [hwhole.1.takeWhile_append hstop, hwhole.1.dropWhile_append hstop]
  split
  next => exact absurd rfl hwhole.1.1
  next => cases hwhole.2 rfl
  next =>
    cases decimals with
    | none =>
      obtain rfl : fraction = [] := hfraction
      rw [List.nil_append]
      -- what follows the whole part is no point
      split
      next heq => exact absurd rfl (hpower.head_ne hrest heq).2
      next => exact readExponent_of_spelled rfl hpower hrest
    | some digits =>
      obtain ⟨hdigits, rfl⟩ := hfraction
      have hnone := hpower.noDigit_append hrest
      simp only [List.cons_append, hdigits.takeWhile_append hnone, hdigits.dropWhile_append hnone]
      rw [if_neg (by simpa using hdigits.1)]
      exact readExponent_of_spelled rfl hpower hrest

/-- What is read of a number are the parts it writes. -/
theorem spelled_of_readNumber {negative : Bool} {node : Node}
    (h : readNumber negative text = (node, some rest)) :
    ∃ p : NumberParts, p.negative = negative ∧ node = p.node ∧
      ∃ written, p.Spelled written ∧ text = written ++ rest := by
  have hsplit : text = text.takeWhile isDigit ++ text.dropWhile isDigit :=
    List.takeWhile_append_dropWhile.symm
  rw [readNumber] at h
  simp only at h
  split at h
  · cases h
  · cases h
  next hne hzero =>
    have hdigits : IsDigits (text.takeWhile isDigit) := isDigits_takeWhile hne
    have hwhole : IsWholePart (text.takeWhile isDigit) := by
      refine ⟨hdigits, fun hhead => ?_⟩
      obtain ⟨more, hmore⟩ := List.head?_eq_some_iff.1 hhead
      cases more with
      | nil => exact hmore
      | cons c more => exact absurd hmore (hzero c more)
    split at h
    next after hafter =>
      split at h
      · cases h
      next hdecimals =>
        obtain ⟨exponent, power, hpower, hrest, rfl⟩ := spelled_of_readExponent rfl h
        have hfraction : FractionSpelled (some (after.takeWhile isDigit))
            ('.' :: after.takeWhile isDigit) :=
          ⟨isDigits_takeWhile (by simpa using hdecimals), rfl⟩
        refine ⟨_, rfl, rfl, _, ⟨hwhole, _, _, hfraction, hpower, rfl⟩, ?_⟩
        simp only [List.append_assoc, List.cons_append, ← hrest, List.takeWhile_append_dropWhile,
          ← hafter]
    next =>
      obtain ⟨exponent, power, hpower, hrest, rfl⟩ := spelled_of_readExponent rfl h
      refine ⟨_, rfl, rfl, _, ⟨hwhole, [], _, rfl, hpower, rfl⟩, ?_⟩
      simp only [List.append_assoc, List.nil_append, ← hrest, List.takeWhile_append_dropWhile]

/-- Whatever its parts are, a number is no text. -/
theorem NumberParts.node_ne_text (p : NumberParts) (s : String) : p.node ≠ .text s := by
  unfold NumberParts.node
  simp only
  split
  · exact nofun
  · split <;> exact nofun

/-! ## Whole numbers -/

theorem gather_eq {n : Nat} {digits : List Char}
    (h : withDigits 10 n digits ≤ greatestGathered) :
    gather n digits = (withDigits 10 n digits, []) := by
  induction digits generalizing n with
  | nil => rfl
  | cons c digits ih =>
    have hnext : n * 10 + (digitValue? c).getD 0 ≤ greatestGathered :=
      Nat.le_trans (Text.le_withDigits (by decide) _ digits) h
    rw [gather, if_neg (Nat.not_lt.2 hnext)]
    exact ih h

theorem gather_decimal {n : Nat} (h : n ≤ greatestGathered) : gather 0 (decimal n) = (n, []) := by
  have hn : withDigits 10 0 (decimal n) = n := Text.ofDigits_decimal n
  rw [gather_eq (hn.symm ▸ h), hn]

theorem spelled_decimal (negative : Bool) (n : Nat) :
    NumberParts.Spelled ⟨negative, decimal n, none, none⟩ (decimal n) :=
  ⟨isWholePart_decimal n, [], [], rfl, rfl, by simp⟩

theorem node_natural {n : Nat} (h : n ≤ greatestGathered) :
    NumberParts.node ⟨false, decimal n, none, none⟩ = .int n := by
  simp [NumberParts.node, gather_decimal h]

theorem node_negative {n : Nat} (hpos : 0 < n) (h : n ≤ 9223372036854775808) :
    NumberParts.node ⟨true, decimal n, none, none⟩ = .int (-n) := by
  have hle : n ≤ greatestGathered := Nat.le_trans h (by decide)
  simp [NumberParts.node, gather_decimal hle, hpos, h]

end ActionBook.Json
