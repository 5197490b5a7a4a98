import ActionBook.Text.Hex
import Mathlib.Algebra.Group.Nat.Defs

/-!
# `Text.Digits`: numbers read back from their digits

The digits of a number stand for it, in decimal (`ofDigits_decimal`) as in hexadecimal notation
(`ofDigits_hex`), with or without zeros in front (`ofDigits_zeroPadded`). A number below a power of
ten needs no more digits than the power says, and decimal digits do not start with a zero they could
do without.

`withDigits base n digits` is what a reader that has gathered `n` so far makes of the digits that
follow.
-/

namespace ActionBook.Text

/-! ## Digits -/

theorem digitValue?_digit : ∀ d < 16, digitValue? (digit d) = some d := by decide

theorem isDigit_digit : ∀ d < 10, isDigit (digit d) := by decide

theorem digit_ne_zero : ∀ d < 16, d ≠ 0 → digit d ≠ '0' := by decide

/-- A decimal digit has a value below ten. -/
theorem exists_digitValue?_of_isDigit {c : Char} (h : isDigit c) :
    ∃ d < 10, digitValue? c = some d := by
  unfold isDigit isDigitIn at h
  split at h
  next d hd => exact ⟨d, of_decide_eq_true h, hd⟩
  next => cases h

/-- A decimal digit is one of the characters from `0` to `9`. -/
theorem isDigit_iff {c : Char} : isDigit c ↔ 0x30 ≤ c.toNat ∧ c.toNat ≤ 0x39 := by
  simp only [isDigit, isDigitIn, digitValue?, Bool.and_eq_true, decide_eq_true_eq]
  grind

/-- Digits in any base are ASCII. -/
theorem toNat_lt_of_isDigitIn {base : Nat} {c : Char} (h : isDigitIn base c) : c.toNat < 0x80 := by
  unfold isDigitIn at h
  split at h
  next d hd =>
    simp only [digitValue?] at hd
    grind
  next => cases h

/-! ## Numerals -/

/-- Digits in a base that stand for a number. -/
structure IsNumeral (base n : Nat) (digits : List Char) : Prop where
  ne_nil : digits ≠ []
  isDigitIn : ∀ c ∈ digits, isDigitIn base c
  value : ofDigits base digits = n

/-! ## Reading digits -/

/-- The number written as `n` is with some digits after it. -/
def withDigits (base n : Nat) (digits : List Char) : Nat :=
  digits.foldl (fun n c => n * base + (digitValue? c).getD 0) n

theorem ofDigits_eq_withDigits (base : Nat) (digits : List Char) :
    ofDigits base digits = withDigits base 0 digits := rfl

@[simp] theorem withDigits_nil (base n : Nat) : withDigits base n [] = n := rfl

@[simp] theorem withDigits_cons (base n : Nat) (c : Char) (digits : List Char) :
    withDigits base n (c :: digits) =
      withDigits base (n * base + (digitValue? c).getD 0) digits := rfl

@[simp] theorem withDigits_append (base n : Nat) (digits more : List Char) :
    withDigits base n (digits ++ more) = withDigits base (withDigits base n digits) more := by
  simp [withDigits]

/-- More digits make a number no smaller. -/
theorem le_withDigits {base : Nat} (h : 0 < base) (n : Nat) (digits : List Char) :
    n ≤ withDigits base n digits := by
  induction digits generalizing n with
  | nil => exact Nat.le_refl n
  | cons c digits ih =>
    calc n ≤ n * base := Nat.le_mul_of_pos_right n h
      _ ≤ n * base + (digitValue? c).getD 0 := Nat.le_add_right ..
      _ ≤ withDigits base n (c :: digits) := ih _

/-! ## The digits of a number -/

variable {base : Nat} {hbase : 1 < base} {n : Nat}

@[simp] theorem digitsAux_zero : digitsAux base hbase 0 = [] := by
  rw [digitsAux, dif_pos rfl]

theorem digitsAux_of_ne_zero (hn : n ≠ 0) :
    digitsAux base hbase n = digitsAux base hbase (n / base) ++ [digit (n % base)] := by
  rw [digitsAux, dif_neg hn]

theorem withDigits_digitsAux (h : base ≤ 16) (n : Nat) :
    withDigits base 0 (digitsAux base hbase n) = n := by
  induction n using digitsAux.induct base hbase with
  | case1 => simp
  | case2 n hn _ ih =>
    have hdigit : n % base < 16 :=
      Nat.lt_of_lt_of_le (Nat.mod_lt n (Nat.zero_lt_of_lt hbase)) h
    rw [digitsAux_of_ne_zero hn, withDigits_append, ih, withDigits_cons, withDigits_nil,
      digitValue?_digit _ hdigit]
    exact Nat.div_add_mod' n base

/-- Every digit of a number is one of the base. -/
theorem exists_digit_of_mem_digitsAux {c : Char} (h : c ∈ digitsAux base hbase n) :
    ∃ d < base, c = digit d := by
  induction n using digitsAux.induct base hbase with
  | case1 => simp at h
  | case2 n hn _ ih =>
    rw [digitsAux_of_ne_zero hn, List.mem_append, List.mem_singleton] at h
    rcases h with h | h
    · exact ih h
    · exact ⟨n % base, Nat.mod_lt n (Nat.zero_lt_of_lt hbase), h⟩

/-- A number below a power of the base has no more digits than the power says. -/
theorem length_digitsAux_le {k : Nat} (h : n < base ^ k) :
    (digitsAux base hbase n).length ≤ k := by
  induction k generalizing n with
  | zero =>
    have hn : n = 0 := Nat.lt_one_iff.1 h
    subst hn
    simp
  | succ k ih =>
    by_cases hn : n = 0
    · subst hn
      simp
    · have hdiv : n / base < base ^ k := Nat.div_lt_of_lt_mul (by rwa [Nat.mul_comm, ← Nat.pow_succ])
      rw [digitsAux_of_ne_zero hn, List.length_append, List.length_singleton]
      exact Nat.succ_le_succ (ih hdiv)

/-- The first digit of a number is no zero. -/
theorem head?_digitsAux_ne (h : base ≤ 16) (n : Nat) :
    (digitsAux base hbase n).head? ≠ some '0' := by
  induction n using digitsAux.induct base hbase with
  | case1 => simp
  | case2 n hn _ ih =>
    rw [digitsAux_of_ne_zero hn, List.head?_append]
    -- the last digit is the first one, too, if there are none before it
    by_cases hdiv : n / base = 0
    · have hlt : n < base := (Nat.div_eq_zero_iff_lt (Nat.zero_lt_of_lt hbase)).1 hdiv
      have hdigit : digit n ≠ '0' := digit_ne_zero n (Nat.lt_of_lt_of_le hlt h) hn
      simp [hdiv, Nat.mod_eq_of_lt hlt, hdigit]
    · rw [digitsAux_of_ne_zero hdiv] at ih ⊢
      simpa using ih

theorem digitsAux_ne_nil (hn : n ≠ 0) : digitsAux base hbase n ≠ [] := by
  rw [digitsAux_of_ne_zero hn]
  exact List.append_ne_nil_of_right_ne_nil _ (List.cons_ne_nil _ _)

/-! ## Decimal and hexadecimal notation -/

theorem decimal_ne_nil (n : Nat) : decimal n ≠ [] := by
  unfold decimal
  split
  · exact List.cons_ne_nil _ _
  next hn => exact digitsAux_ne_nil hn

theorem isDigit_of_mem_decimal {c : Char} (h : c ∈ decimal n) : isDigit c := by
  unfold decimal at h
  split at h
  · rw [List.mem_singleton.1 h]
    decide
  · obtain ⟨d, hd, rfl⟩ := exists_digit_of_mem_digitsAux h
    exact isDigit_digit d hd

/-- Decimal digits stand for the number they were written for. -/
theorem ofDigits_decimal (n : Nat) : ofDigits 10 (decimal n) = n := by
  unfold decimal
  split
  next hn =>
    subst hn
    decide
  next => exact withDigits_digitsAux (by decide) n

/-- Hexadecimal digits stand for the number they were written for. -/
theorem ofDigits_hex (n : Nat) : ofDigits 16 (hex n) = n := by
  unfold hex
  split
  next hn =>
    subst hn
    decide
  next => exact withDigits_digitsAux (by decide) n

/-- The decimal digits of a number other than zero do not start with a zero. -/
theorem head?_decimal_ne (hn : n ≠ 0) : (decimal n).head? ≠ some '0' := by
  rw [decimal, if_neg hn]
  exact head?_digitsAux_ne (by decide) n

/-- Decimal digits that start with a zero are just that zero. -/
theorem eq_nil_of_decimal_eq_cons {rest : List Char} (h : decimal n = '0' :: rest) :
    rest = [] := by
  by_cases hn : n = 0
  · subst hn
    simpa [decimal] using h.symm
  · exact absurd (congrArg List.head? h) (head?_decimal_ne hn)

theorem length_decimal_le {k : Nat} (hk : 0 < k) (h : n < 10 ^ k) : (decimal n).length ≤ k := by
  unfold decimal
  split
  · exact hk
  · exact length_digitsAux_le h

theorem length_hex_le {k : Nat} (hk : 0 < k) (h : n < 16 ^ k) : (hex n).length ≤ k := by
  unfold hex
  split
  · exact hk
  · exact length_digitsAux_le h

theorem isSome_digitValue?_of_mem_hex {c : Char} (h : c ∈ hex n) : (digitValue? c).isSome := by
  unfold hex at h
  split at h
  · rw [List.mem_singleton.1 h]
    decide
  · obtain ⟨d, hd, rfl⟩ := exists_digit_of_mem_digitsAux h
    rw [digitValue?_digit d hd, Option.isSome_some]

/-! ## Zeros in front -/

theorem withDigits_replicate_zero (base k : Nat) :
    withDigits base 0 (List.replicate k '0') = 0 := by
  have hzero : digitValue? '0' = some 0 := by decide
  induction k with
  | zero => rfl
  | succ k ih => simpa [List.replicate_succ, hzero] using ih

/-- Zeros in front do not matter. -/
theorem ofDigits_zeroPadded (base width : Nat) (digits : List Char) :
    ofDigits base (zeroPadded width digits) = ofDigits base digits := by
  rw [zeroPadded, ofDigits_eq_withDigits, withDigits_append, withDigits_replicate_zero]
  rfl

theorem length_zeroPadded {width : Nat} {digits : List Char} (h : digits.length ≤ width) :
    (zeroPadded width digits).length = width := by
  rw [zeroPadded, List.length_append, List.length_replicate, Nat.sub_add_cancel h]

theorem zeroPadded_ne_nil {width : Nat} {digits : List Char} (h : digits ≠ []) :
    zeroPadded width digits ≠ [] := List.append_ne_nil_of_right_ne_nil _ h

theorem isSome_digitValue?_of_mem_zeroPadded_hex {width : Nat} {c : Char}
    (h : c ∈ zeroPadded width (hex n)) : (digitValue? c).isSome := by
  rcases List.mem_append.1 h with h | h
  · rw [List.eq_of_mem_replicate h]
    decide
  · exact isSome_digitValue?_of_mem_hex h

theorem isDigit_of_mem_zeroPadded {width : Nat} {c : Char}
    (h : c ∈ zeroPadded width (decimal n)) : isDigit c := by
  rcases List.mem_append.1 h with h | h
  · rw [List.eq_of_mem_replicate h]
    decide
  · exact isDigit_of_mem_decimal h

end ActionBook.Text
