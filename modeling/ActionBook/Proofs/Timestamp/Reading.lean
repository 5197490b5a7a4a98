import ActionBook.Proofs.Text.Digits
import ActionBook.Timestamp.Parser
import Mathlib.Tactic.SplitIfs

/-!
# `Timestamp.Reading`: the text of a moment is read back

Every moment is written so that the lenient reader gives it back (`parse_write`): years beyond four
digits with their sign, fractions in groups of three digits, a leap second as second 60. Each number
stands before a character that is no digit, which is what makes the reader stop after it.
-/

namespace ActionBook.Timestamp

open Text (decimal digitValue? isDigit ofDigits trimStart withDigits zeroPadded)

/-! ## Digits -/

theorem not_isBlank_of_isDigit {c : Char} (h : isDigit c) : ¬ Text.isBlank c := by
  rw [Text.isDigit_iff] at h
  simp only [Text.isBlank, Bool.or_eq_true, Bool.and_eq_true, decide_eq_true_eq, beq_iff_eq]
  omega

theorem trimStart_cons {c : Char} (h : ¬ Text.isBlank c) (rest : List Char) :
    trimStart (c :: rest) = c :: rest := List.dropWhile_cons_of_neg h

/-- Digits are taken up to the first character that is none. -/
theorem takeDigits_append {digits : List Char} {c : Char} (hdigits : ∀ d ∈ digits, isDigit d)
    (hc : ¬ isDigit c) (rest : List Char) {width n : Nat} (hwidth : digits.length ≤ width)
    (hn : withDigits 10 n digits ≤ greatestNumber) :
    takeDigits width n (digits ++ c :: rest) = .ok (withDigits 10 n digits, c :: rest) := by
  induction digits generalizing width n with
  | nil =>
    -- either the width is used up, or the next character ends the number
    cases width with
    | zero => rfl
    | succ width =>
      rw [List.nil_append, takeDigits]
      split
      next d hd =>
        have hten : ¬ d < 10 := by simpa [Text.isDigit, Text.isDigitIn, hd] using hc
        rw [if_neg hten]
        rfl
      next => rfl
  | cons d digits ih =>
    obtain ⟨hfirst, hrest⟩ := List.forall_mem_cons.1 hdigits
    obtain ⟨v, hv, hvalue⟩ := Text.exists_digitValue?_of_isDigit hfirst
    obtain ⟨width, rfl⟩ : ∃ w, width = w + 1 := ⟨width - 1, by simp at hwidth; omega⟩
    rw [Text.withDigits_cons, hvalue, Option.getD_some] at hn ⊢
    have hgreatest : ¬ greatestNumber < n * 10 + v :=
      Nat.not_lt.2 (Nat.le_trans (Text.le_withDigits (by decide) _ digits) hn)
    rw [List.cons_append, takeDigits, hvalue]
    simp only [if_pos hv, if_neg hgreatest]
    exact ih hrest (Nat.le_of_succ_le_succ hwidth) hn

/-- The first digit of a number with its zeros in front. -/
theorem exists_digit_zeroPadded (k n : Nat) :
    ∃ d digits, zeroPadded k (decimal n) = d :: digits ∧ isDigit d := by
  have hne : zeroPadded k (decimal n) ≠ [] := Text.zeroPadded_ne_nil (Text.decimal_ne_nil n)
  obtain ⟨d, digits, heq⟩ := List.exists_cons_of_ne_nil hne
  have hmem : d ∈ zeroPadded k (decimal n) := heq ▸ List.mem_cons_self
  exact ⟨d, digits, heq, Text.isDigit_of_mem_zeroPadded hmem⟩

/-- A number is read back from its digits, with zeros in front. -/
theorem number_zeroPadded {k n width : Nat} {c : Char} (hc : ¬ isDigit c) (rest : List Char)
    (hwidth : (zeroPadded k (decimal n)).length ≤ width) (hn : n ≤ greatestNumber) :
    number width (zeroPadded k (decimal n) ++ c :: rest) = .ok (n, c :: rest) := by
  have hvalue : withDigits 10 0 (zeroPadded k (decimal n)) = n :=
    (Text.ofDigits_zeroPadded 10 k _).trans (Text.ofDigits_decimal n)
  have htake := takeDigits_append (fun _ => Text.isDigit_of_mem_zeroPadded) hc rest hwidth
    (hvalue.symm ▸ hn)
  obtain ⟨d, digits, heq, hd⟩ := exists_digit_zeroPadded k n
  rw [hvalue] at htake
  rw [heq] at htake ⊢
  rw [List.cons_append, number, if_pos hd]
  exact htake

theorem trimStart_zeroPadded (k n : Nat) (rest : List Char) :
    trimStart (zeroPadded k (decimal n) ++ rest) = zeroPadded k (decimal n) ++ rest := by
  obtain ⟨d, digits, heq, hd⟩ := exists_digit_zeroPadded k n
  rw [heq, List.cons_append, trimStart_cons (not_isBlank_of_isDigit hd)]

theorem length_writeTwo {n : Nat} (h : n < 100) : (writeTwo n).length = 2 :=
  Text.length_zeroPadded (Text.length_decimal_le (by decide) h)

/-- Two digits are read back as the number they were written for. -/
theorem bounded_writeTwo {least greatest n : Nat} (hleast : least ≤ n) (hgreatest : n ≤ greatest)
    (h : n < 100) {c : Char} (hc : ¬ isDigit c) (rest : List Char) :
    bounded 2 least greatest (writeTwo n ++ c :: rest) = .ok (n, c :: rest) := by
  have hnumber : number 2 (writeTwo n ++ c :: rest) = .ok (n, c :: rest) :=
    number_zeroPadded hc rest (Nat.le_of_eq (length_writeTwo h))
      (Nat.le_trans (Nat.le_of_lt h) (by decide))
  have htrim : trimStart (writeTwo n ++ c :: rest) = writeTwo n ++ c :: rest :=
    trimStart_zeroPadded 2 n _
  rw [bounded, htrim, hnumber]
  exact if_pos ⟨hleast, hgreatest⟩

theorem mark_cons {c : Char} (h : ¬ Text.isBlank c) (rest : List Char) :
    mark c (c :: rest) = .ok rest := by
  rw [mark, trimStart_cons h]
  exact if_pos rfl

/-! ## Years -/

theorem number_year {n : Nat} (h : n ≤ greatestYear + 1) (rest : List Char) :
    number (zeroPadded 4 (decimal n) ++ '-' :: rest).length
      (zeroPadded 4 (decimal n) ++ '-' :: rest) = .ok (n, '-' :: rest) :=
  number_zeroPadded (by decide) rest (by simp) (Nat.le_trans h (by decide))

theorem year_minus {n : Nat} (h : n ≤ greatestYear + 1) (rest : List Char) :
    year ('-' :: (zeroPadded 4 (decimal n) ++ '-' :: rest)) = .ok (-(n : Int), '-' :: rest) := by
  rw [year, trimStart_cons (by decide)]
  simp only [number_year h]
  exact if_pos h

theorem year_plus {n : Nat} (h : n ≤ greatestYear) (rest : List Char) :
    year ('+' :: (zeroPadded 4 (decimal n) ++ '-' :: rest)) = .ok ((n : Int), '-' :: rest) := by
  rw [year, trimStart_cons (by decide)]
  simp only [number_year (Nat.le_succ_of_le h)]
  exact if_pos h

theorem year_unsigned {n : Nat} (h : n ≤ 9999) (rest : List Char) :
    year (zeroPadded 4 (decimal n) ++ '-' :: rest) = .ok ((n : Int), '-' :: rest) := by
  have hlength : (decimal n).length ≤ 4 :=
    Text.length_decimal_le (by decide) (Nat.lt_succ_of_le h)
  have hnumber : number 4 (zeroPadded 4 (decimal n) ++ '-' :: rest) = .ok (n, '-' :: rest) :=
    number_zeroPadded (by decide) rest (Nat.le_of_eq (Text.length_zeroPadded hlength))
      (Nat.le_trans h (by decide))
  have htrim := trimStart_zeroPadded 4 n ('-' :: rest)
  obtain ⟨d, digits, heq, hd⟩ := exists_digit_zeroPadded 4 n
  rw [heq, List.cons_append] at hnumber htrim ⊢
  rw [year, htrim]
  split
  next hminus => cases hminus; exact absurd hd (by decide)
  next hplus => cases hplus; exact absurd hd (by decide)
  next => rw [hnumber]; rfl

/-- A year is read back, with its sign if it has one. -/
theorem year_writeYear {y : Int} (hfirst : firstYear ≤ y) (hlast : y ≤ lastYear)
    (rest : List Char) : year (writeYear y ++ '-' :: rest) = .ok (y, '-' :: rest) := by
  have hsize : y.natAbs ≤ greatestYear := by
    simp only [firstYear, lastYear, greatestYear] at *
    omega
  unfold writeYear
  split
  next hfour =>
    rw [year_unsigned (by omega)]
    exact congrArg (fun z => Except.ok (z, '-' :: rest)) (Int.toNat_of_nonneg hfour.1)
  next hmore =>
    by_cases hneg : y < 0
    · rw [if_pos hneg, List.cons_append, year_minus (Nat.le_succ_of_le hsize)]
      exact congrArg (fun z => Except.ok (z, '-' :: rest)) (by omega)
    · rw [if_neg hneg, List.cons_append, year_plus hsize]
      exact congrArg (fun z => Except.ok (z, '-' :: rest)) (by omega)

/-! ## Fractions -/

theorem fraction_zeroPadded {k m : Nat} (hk : 0 < k) (hnine : k ≤ 9) (hm : m < 10 ^ k) :
    fraction ('.' :: (zeroPadded k (decimal m) ++ ['Z'])) = .ok (m * 10 ^ (9 - k), ['Z']) := by
  have hlength : (zeroPadded k (decimal m)).length = k :=
    Text.length_zeroPadded (Text.length_decimal_le hk hm)
  have hgreatest : m ≤ greatestNumber :=
    Nat.le_trans (Nat.le_of_lt hm) (Nat.le_trans (Nat.pow_le_pow_right (by decide) hnine) (by decide))
  have hnumber : number 9 (zeroPadded k (decimal m) ++ ['Z']) = .ok (m, ['Z']) :=
    number_zeroPadded (by decide) [] (Nat.le_trans (Nat.le_of_eq hlength) hnine) hgreatest
  have htaken : (zeroPadded k (decimal m) ++ ['Z']).length - ['Z'].length = k := by
    rw [List.length_append, hlength, Nat.add_sub_cancel]
  rw [fraction, hnumber]
  show Except.ok (m * Nat.pow 10 (9 - _), _) = _
  rw [htaken]
  rfl

/-- The fraction of a second is read back from the fewest groups of digits that hold it. -/
theorem fraction_writeFraction {nano : Nat} (h : nano < 1000000000) :
    fraction (writeFraction nano ++ ['Z']) = .ok (nano, ['Z']) := by
  unfold writeFraction
  split
  next hzero => rw [hzero]; rfl
  split
  next hthree =>
    rw [List.cons_append, fraction_zeroPadded (by decide) (by decide) (by omega)]
    exact congrArg (fun n => Except.ok (n, ['Z'])) (by omega)
  split
  next hsix =>
    rw [List.cons_append, fraction_zeroPadded (by decide) (by decide) (by omega)]
    exact congrArg (fun n => Except.ok (n, ['Z'])) (by omega)
  next =>
    rw [List.cons_append, fraction_zeroPadded (by decide) (by decide) h]
    exact congrArg (fun n => Except.ok (n, ['Z'])) (by omega)

/-! ## Moments -/

/-- The numbers that the text of a moment shows. -/
def shown (t : Timestamp) : Fields where
  year := t.date.year
  month := t.date.month
  day := t.date.day
  hour := t.hour
  minute := t.minute
  second := t.second + t.nano / 1000000000
  nano := t.nano % 1000000000
  offset := 0

theorem daysInMonth_le (year : Int) (month : Nat) : daysInMonth year month ≤ 31 := by
  unfold daysInMonth
  split_ifs <;> decide

/-- After the seconds there is a point or the letter of universal time. -/
theorem exists_cons_writeFraction (nano : Nat) :
    ∃ c rest, writeFraction nano ++ ['Z'] = c :: rest ∧ ¬ isDigit c := by
  unfold writeFraction
  split_ifs <;> exact ⟨_, _, rfl, by decide⟩

theorem fields_write (t : Timestamp) : fields t.write = .ok t.shown := by
  obtain ⟨hfirst, hlast, hmonth, hmonth', hday, hday'⟩ := t.date.isDate
  obtain ⟨hhour, hminute, hsecond, hnano, hleap⟩ := t.isTime
  have hdays : t.date.day ≤ 31 := Nat.le_trans hday' (daysInMonth_le _ _)
  have hfraction := fraction_writeFraction (Nat.mod_lt t.nano (by decide : 0 < 1000000000))
  obtain ⟨c, rest, heq, hc⟩ := exists_cons_writeFraction (t.nano % 1000000000)
  have hseconds : bounded 2 0 60 (writeTwo (t.second + t.nano / 1000000000) ++
      (writeFraction (t.nano % 1000000000) ++ ['Z'])) =
        .ok (t.second + t.nano / 1000000000, writeFraction (t.nano % 1000000000) ++ ['Z']) := by
    rw [heq]
    exact bounded_writeTwo (Nat.zero_le _) (by omega) (by omega) hc rest
  have hmark : ∀ {c}, ¬ Text.isBlank c → ∀ rest, mark c (c :: rest) = .ok rest := mark_cons
  -- Every number stands before a mark or a letter, so that one step after the other succeeds.
  unfold fields write
  simp only [List.append_assoc, List.cons_append, bind, Except.bind, year_writeYear hfirst hlast,
    hmark (c := '-') (by decide), hmark (c := ':') (by decide),
    bounded_writeTwo (c := '-') hmonth hmonth' (by omega) (by decide),
    bounded_writeTwo (c := 'T') hday hdays (by omega) (by decide),
    bounded_writeTwo (c := ':') (Nat.zero_le _) (Nat.le_of_lt_succ hhour) (by omega) (by decide),
    bounded_writeTwo (c := ':') (Nat.zero_le _) (Nat.le_of_lt_succ hminute) (by omega) (by decide),
    hseconds, hfraction]
  rfl

/-- Without an offset, the seconds of a day are split into the time they were put together from. -/
theorem carried_zero (t : Timestamp) :
    carried t.date (t.hour * 3600 + t.minute * 60 + t.second) t.nano 0 = .ok t := by
  obtain ⟨date, hour, minute, second, nano, h⟩ := t
  obtain ⟨hhour, hminute, hsecond, -, -⟩ := id h
  generalize hs : hour * 3600 + minute * 60 + second = s
  have hless : ¬ Int.ofNat s - 0 < 0 := by simp
  have hmore : ¬ 86400 ≤ Int.ofNat s - 0 := by simp; omega
  have huniversal : ((Int.ofNat s - 0) % 86400).toNat = s := by simp; omega
  have hh : s / 3600 = hour := by omega
  have hm : s / 60 % 60 = minute := by omega
  have hsec : s % 60 = second := by omega
  simp only [carried, if_neg hless, if_neg hmore, huniversal, hh, hm, hsec, dif_pos h]

/-- A leap second is told by the second 60 that it is shown as. -/
theorem ofFields_shown (t : Timestamp) : ofFields t.shown = .ok t := by
  obtain ⟨-, -, hsecond, hnano, hleap⟩ := t.isTime
  have hdate : Date.ofYmd? t.date.year t.date.month t.date.day = some t.date :=
    dif_pos t.date.isDate
  -- only a leap second is shown as second 60, and it comes after second 59
  have hmin : min (t.second + t.nano / 1000000000) 59 = t.second := by omega
  have hfraction : t.nano % 1000000000 +
      (if t.second + t.nano / 1000000000 = 60 then 1000000000 else 0) = t.nano := by
    split <;> omega
  rw [ofFields, shown]
  simp only [hdate, hmin, hfraction]
  exact carried_zero t

/-- The text of a moment is read as that moment. -/
theorem parse_write (t : Timestamp) : parse t.write = .ok t := by
  rw [parse, fields_write]
  exact ofFields_shown t

theorem parse_text (t : Timestamp) : parse t.text.toList = .ok t := by
  rw [text, String.toList_ofList, parse_write]

end ActionBook.Timestamp
