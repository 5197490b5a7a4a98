import ActionBook.Text.Blank
import Mathlib.Data.List.TakeWhile

/-!
# `Text.Trimming`: what trimming takes away

A text is its leading blank characters, what trimming leaves, and its trailing blank characters, in
this order (`leading_append_trim_append_trailing`). What is left neither starts nor ends with a blank
character, and nothing is left exactly when the text is blank.
-/

namespace ActionBook.Text

/-- The blank characters at the start of a text. -/
def leading (text : List Char) : List Char := text.takeWhile isBlank

/-- The blank characters at the end of a text that are not at its start as well. -/
def trailing (text : List Char) : List Char := ((trimStart text).reverse.takeWhile isBlank).reverse

theorem isBlank_of_mem_leading {text : List Char} {c : Char} (h : c ∈ leading text) :
    isBlank c := by
  have hall : (leading text).all isBlank := List.all_takeWhile
  exact List.all_eq_true.1 hall c h

theorem isBlank_of_mem_trailing {text : List Char} {c : Char} (h : c ∈ trailing text) :
    isBlank c := by
  have hall : ((trimStart text).reverse.takeWhile isBlank).all isBlank := List.all_takeWhile
  exact List.all_eq_true.1 hall c (List.mem_reverse.1 h)

theorem trimEnd_append (text : List Char) :
    trimEnd text ++ (text.reverse.takeWhile isBlank).reverse = text := by
  rw [trimEnd, ← List.reverse_append, List.takeWhile_append_dropWhile, List.reverse_reverse]

/-- Trimming takes away the leading and the trailing blank characters and nothing else. -/
theorem leading_append_trim_append_trailing (text : List Char) :
    leading text ++ trim text ++ trailing text = text := by
  have hend : trim text ++ trailing text = trimStart text := trimEnd_append (trimStart text)
  rw [List.append_assoc, hend]
  exact List.takeWhile_append_dropWhile

/-- What trimming leaves does not start with a blank character. -/
theorem not_isBlank_of_head?_trim {text : List Char} {c : Char} (h : (trim text).head? = some c) :
    ¬ isBlank c := by
  have hstart : (trimStart text).head? = some c := by
    rw [← trimEnd_append (trimStart text), List.head?_append]
    simp only [trim] at h
    simp [h]
  have hnot := List.head?_dropWhile_not isBlank text
  rw [trimStart] at hstart
  simp only [hstart] at hnot
  simp [hnot]

/-- What trimming leaves does not end with a blank character. -/
theorem not_isBlank_of_getLast?_trim {text : List Char} {c : Char}
    (h : (trim text).getLast? = some c) : ¬ isBlank c := by
  have hnot := List.head?_dropWhile_not isBlank (trimStart text).reverse
  rw [trim, trimEnd, List.getLast?_reverse] at h
  simp only [h] at hnot
  simp [hnot]

/-- Trimming leaves a text as it is that neither starts nor ends with a blank character. -/
theorem trim_eq_self {text : List Char} (hhead : ∀ c, text.head? = some c → ¬ isBlank c)
    (hlast : ∀ c, text.getLast? = some c → ¬ isBlank c) : trim text = text := by
  have hkeep (rest : List Char) (h : ∀ c, rest.head? = some c → ¬ isBlank c) :
      rest.dropWhile isBlank = rest := by
    cases rest with
    | nil => rfl
    | cons c rest => exact List.dropWhile_cons_of_neg (h c rfl)
  have hstart : trimStart text = text := hkeep text hhead
  have hend : text.reverse.dropWhile isBlank = text.reverse := by
    refine hkeep text.reverse fun c hc => hlast c ?_
    rwa [List.head?_reverse] at hc
  rw [trim, hstart, trimEnd, hend, List.reverse_reverse]

/-- Trimming adds nothing. -/
theorem mem_of_mem_trim {text : List Char} {c : Char} (h : c ∈ trim text) : c ∈ text := by
  rw [← leading_append_trim_append_trailing text]
  simp [h]

/-- Trimming leaves nothing of a text exactly when all of it is blank. -/
theorem trim_eq_nil_iff {text : List Char} : trim text = [] ↔ ∀ c ∈ text, isBlank c := by
  constructor
  · intro h c hc
    rw [← leading_append_trim_append_trailing text, h, List.append_nil] at hc
    rcases List.mem_append.1 hc with hc | hc
    · exact isBlank_of_mem_leading hc
    · exact isBlank_of_mem_trailing hc
  · intro h
    have hstart : trimStart text = [] := List.dropWhile_eq_nil_iff.2 h
    rw [trim, hstart]
    rfl

/-! ## Blanks around a text -/

/-- A text of a kind with blank characters around it. -/
def Padded (p : List Char → Prop) (text : List Char) : Prop :=
  ∃ before inner after, text = before ++ inner ++ after ∧ p inner ∧
    (∀ c ∈ before, isBlank c) ∧ ∀ c ∈ after, isBlank c

/-- Trimming takes away no more than the blank characters around a text that has none. -/
theorem trim_append {before inner after : List Char} (hbefore : ∀ c ∈ before, isBlank c)
    (hinner : ∀ c ∈ inner, ¬ isBlank c) (hafter : ∀ c ∈ after, isBlank c) :
    trim (before ++ inner ++ after) = inner := by
  cases inner with
  | nil =>
    refine trim_eq_nil_iff.2 fun c hc => ?_
    rw [List.append_nil, List.mem_append] at hc
    exact hc.elim (hbefore c) (hafter c)
  | cons first inner =>
    have hstart : trimStart (before ++ (first :: inner) ++ after) = first :: inner ++ after := by
      rw [trimStart, List.append_assoc, List.dropWhile_append_of_pos hbefore]
      exact List.dropWhile_cons_of_neg (hinner first List.mem_cons_self)
    obtain ⟨last, others, hreverse⟩ :=
      List.exists_cons_of_ne_nil (mt List.reverse_eq_nil_iff.1 (List.cons_ne_nil first inner))
    have hlast : last ∈ first :: inner := by
      rw [← List.mem_reverse, hreverse]
      exact List.mem_cons_self
    rw [trim, hstart, trimEnd, List.reverse_append,
      List.dropWhile_append_of_pos fun c hc => hafter c (List.mem_reverse.1 hc), hreverse,
      List.dropWhile_cons_of_neg (hinner last hlast), ← hreverse, List.reverse_reverse]

theorem padded_iff {p : List Char → Prop} (hp : ∀ inner, p inner → ∀ c ∈ inner, ¬ isBlank c)
    {text : List Char} : Padded p text ↔ p (trim text) := by
  constructor
  · rintro ⟨before, inner, after, rfl, hinner, hbefore, hafter⟩
    rwa [trim_append hbefore (hp inner hinner) hafter]
  · intro h
    exact ⟨leading text, trim text, trailing text, (leading_append_trim_append_trailing text).symm, h,
      fun _ => isBlank_of_mem_leading, fun _ => isBlank_of_mem_trailing⟩

end ActionBook.Text
