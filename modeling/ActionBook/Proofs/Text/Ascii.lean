/-!
# `Text.Ascii`: characters by their numbers

What holds of all characters below a number is shown for these numbers (`of_toNat_lt`). Only the letters
of ASCII have a lower case of their own (`toLower_eq_or`), so what is to be shown of all characters in
lower case is shown for these.
-/

namespace ActionBook.Text

theorem of_toNat_lt {p : Char → Prop} {c : Char} {bound : Nat} (h : c.toNat < bound)
    (hall : ∀ n < bound, p (Char.ofNat n)) : p c := by
  have hc := hall c.toNat h
  rwa [Char.ofNat_toNat] at hc

theorem isAlphanum_iff {c : Char} : c.isAlphanum ↔
    (65 ≤ c.toNat ∧ c.toNat ≤ 90 ∨ 97 ≤ c.toNat ∧ c.toNat ≤ 122) ∨ 48 ≤ c.toNat ∧ c.toNat ≤ 57 := by
  delta Char.isAlphanum Char.isAlpha Char.isUpper Char.isLower Char.isDigit
  simp [UInt32.le_iff_toNat_le, ← Char.toNat_val]

/-! ## Letters in lower case -/

theorem toLower_eq_or (c : Char) : c.toLower = c ∨ ∃ n < 26, c = Char.ofNat (65 + n) := by
  by_cases hupper : 'A'.val ≤ c.val ∧ c.val ≤ 'Z'.val
  · have hlow : 65 ≤ c.toNat := hupper.1
    have hhigh : c.toNat ≤ 90 := hupper.2
    refine .inr ⟨c.toNat - 65, by omega, ?_⟩
    rw [Nat.add_sub_cancel' hlow, Char.ofNat_toNat]
  · exact .inl (dif_neg hupper)

/-- What does not tell letters apart by their case. -/
theorem apply_toLower {p : Char → Bool}
    (h : ∀ n < 26, p (Char.ofNat (65 + n)).toLower = p (Char.ofNat (65 + n))) (c : Char) :
    p c.toLower = p c := by
  rcases toLower_eq_or c with hc | ⟨n, hn, rfl⟩
  · rw [hc]
  · exact h n hn

/-- What is no letter in lower case has been none before. -/
theorem eq_of_toLower_eq {c d : Char} (h : c.toLower = d) (hd : d.toNat < 97) : c = d := by
  rcases toLower_eq_or c with hc | ⟨n, hn, rfl⟩
  · rw [← hc, h]
  · have hletter : ∀ n < 26, 97 ≤ (Char.ofNat (65 + n)).toLower.toNat := by decide
    rw [← h] at hd
    exact absurd (hletter n hn) (by omega)

end ActionBook.Text
