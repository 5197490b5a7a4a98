import ActionBook.Text.Blank
import Mathlib.Data.List.TakeWhile

/-!
# `Text.Cutting`: where a text is cut

A text is cut at the first of its characters that is the given one: what is before has none of them,
and what is after may have more (`cutAt_eq_some_iff`). Cut at all of them, it gives pieces that can be
put together again (`flatMap_splitOn`), and two texts with the character between them give the pieces of
both (`splitOn_append`). Where a text is cut at the first character of a kind, such a character keeps
what comes after it from what is before (`takeWhile_append_stop`).
-/

namespace ActionBook.Text

variable {c : Char} {text before after : List Char}

theorem not_mem_of_cutAt (h : cutAt c text = some (before, after)) : c ∉ before := by
  induction text generalizing before with
  | nil => cases h
  | cons d rest ih =>
    rw [cutAt] at h
    split at h
    · cases h
      exact List.not_mem_nil
    next hd =>
      obtain ⟨⟨b, a⟩, hcut, heq⟩ := Option.map_eq_some_iff.1 h
      cases heq
      rw [List.mem_cons, not_or]
      exact ⟨Ne.symm hd, ih hcut⟩

theorem cutAt_append (h : c ∉ before) (after : List Char) :
    cutAt c (before ++ c :: after) = some (before, after) := by
  induction before with
  | nil => simp [cutAt]
  | cons d before ih =>
    rw [List.mem_cons, not_or] at h
    rw [List.cons_append, cutAt, if_neg (Ne.symm h.1), ih h.2, Option.map_some]

theorem cutAt_eq_some_iff :
    cutAt c text = some (before, after) ↔ text = before ++ c :: after ∧ c ∉ before := by
  constructor
  · exact fun h => ⟨eq_of_cutAt h, not_mem_of_cutAt h⟩
  · rintro ⟨rfl, h⟩
    exact cutAt_append h after

theorem cutAt_eq_none_iff : cutAt c text = none ↔ c ∉ text := by
  induction text with
  | nil => simp [cutAt]
  | cons d rest ih =>
    rw [cutAt, List.mem_cons, not_or]
    split
    next hd => simp [hd]
    next hd => rw [Option.map_eq_none_iff, ih, and_iff_right (Ne.symm hd)]

/-! ## Pieces -/

theorem splitOn_ne_nil (c : Char) (text : List Char) : splitOn c text ≠ [] := by
  cases text with
  | nil => simp [splitOn]
  | cons d rest =>
    rw [splitOn]
    split
    · simp
    · split <;> simp

theorem splitOn_cons_self (c : Char) (text : List Char) :
    splitOn c (c :: text) = [] :: splitOn c text := by
  rw [splitOn, if_pos rfl]

/-- Another character goes to the first piece. -/
theorem splitOn_cons_of_ne {d : Char} {piece : List Char} {pieces : List (List Char)} (h : d ≠ c)
    (hpieces : splitOn c text = piece :: pieces) : splitOn c (d :: text) = (d :: piece) :: pieces := by
  rw [splitOn, if_neg h, hpieces]

theorem splitOn_append (c : Char) (before after : List Char) :
    splitOn c (before ++ c :: after) = splitOn c before ++ splitOn c after := by
  induction before with
  | nil => exact splitOn_cons_self c after
  | cons d before ih =>
    by_cases h : d = c
    · rw [h, List.cons_append, splitOn_cons_self, splitOn_cons_self, ih, List.cons_append]
    · obtain ⟨piece, pieces, hbefore⟩ := List.exists_cons_of_ne_nil (splitOn_ne_nil c before)
      rw [hbefore, List.cons_append] at ih
      rw [List.cons_append, splitOn_cons_of_ne h ih, splitOn_cons_of_ne h hbefore, List.cons_append]

theorem splitOn_of_not_mem (h : c ∉ text) : splitOn c text = [text] := by
  induction text with
  | nil => rfl
  | cons d rest ih =>
    rw [List.mem_cons, not_or] at h
    exact splitOn_cons_of_ne (Ne.symm h.1) (ih h.2)

/-- What is added to a text without another cut goes to its last piece. -/
theorem splitOn_append_of_not_mem (h : c ∉ after) (before : List Char) :
    ∃ pieces last, splitOn c before = pieces ++ [last] ∧
      splitOn c (before ++ after) = pieces ++ [last ++ after] := by
  induction before with
  | nil => exact ⟨[], [], rfl, splitOn_of_not_mem h⟩
  | cons d before ih =>
    obtain ⟨pieces, last, hbefore, hlonger⟩ := ih
    by_cases hd : d = c
    · rw [hd, List.cons_append, splitOn_cons_self, splitOn_cons_self, hbefore, hlonger]
      exact ⟨[] :: pieces, last, rfl, rfl⟩
    · rw [List.cons_append]
      cases pieces with
      | nil => exact ⟨[], d :: last, splitOn_cons_of_ne hd hbefore, splitOn_cons_of_ne hd hlonger⟩
      | cons piece pieces =>
        exact ⟨(d :: piece) :: pieces, last, splitOn_cons_of_ne hd hbefore,
          splitOn_cons_of_ne hd hlonger⟩

/-- The pieces make up the text again. -/
theorem flatMap_splitOn (c : Char) (text : List Char) :
    (splitOn c text).flatMap (c :: ·) = c :: text := by
  induction text with
  | nil => rfl
  | cons d rest ih =>
    by_cases h : d = c
    · rw [h, splitOn_cons_self, List.flatMap_cons, ih]
      rfl
    · obtain ⟨piece, pieces, hrest⟩ := List.exists_cons_of_ne_nil (splitOn_ne_nil c rest)
      rw [hrest, List.flatMap_cons, List.cons_append, List.cons.injEq] at ih
      rw [splitOn_cons_of_ne h hrest, List.flatMap_cons, List.cons_append, List.cons_append, ih.2]

/-- No piece has the character in it, or one that is not in the text. -/
theorem of_mem_splitOn {d : Char} {piece : List Char} (hpiece : piece ∈ splitOn c text)
    (hd : d ∈ piece) : d ≠ c ∧ d ∈ text := by
  induction text generalizing piece with
  | nil =>
    obtain rfl := List.mem_singleton.1 hpiece
    cases hd
  | cons e rest ih =>
    have hlater {piece : List Char} (hpiece : piece ∈ splitOn c rest) (hd : d ∈ piece) :
        d ≠ c ∧ d ∈ e :: rest := (ih hpiece hd).imp_right (List.mem_cons_of_mem e)
    by_cases he : e = c
    · rw [he, splitOn_cons_self] at hpiece
      rcases List.mem_cons.1 hpiece with rfl | hpiece
      · cases hd
      · exact hlater hpiece hd
    · obtain ⟨first, pieces, hrest⟩ := List.exists_cons_of_ne_nil (splitOn_ne_nil c rest)
      rw [splitOn_cons_of_ne he hrest] at hpiece
      rw [hrest] at hlater
      rcases List.mem_cons.1 hpiece with rfl | hpiece
      · rcases List.mem_cons.1 hd with rfl | hd
        · exact ⟨he, List.mem_cons_self⟩
        · exact hlater List.mem_cons_self hd
      · exact hlater (List.mem_cons_of_mem first hpiece) hd

/-! ## Kinds of characters -/

section Kinds

variable {α : Type} {p : α → Bool} {front rest : List α}

theorem takeWhile_append_of_head? (hfront : ∀ a ∈ front, p a = true)
    (hrest : ∀ a ∈ rest.head?, p a = false) : (front ++ rest).takeWhile p = front := by
  rw [List.takeWhile_append_of_pos hfront]
  cases rest with
  | nil => exact List.append_nil _
  | cons a rest => rw [List.takeWhile_cons_of_neg (by simp [hrest a rfl]), List.append_nil]

theorem dropWhile_append_of_head? (hfront : ∀ a ∈ front, p a = true)
    (hrest : ∀ a ∈ rest.head?, p a = false) : (front ++ rest).dropWhile p = rest := by
  rw [List.dropWhile_append_of_pos hfront]
  cases rest with
  | nil => rfl
  | cons a rest => rw [List.dropWhile_cons_of_neg (by simp [hrest a rfl])]

/-- What is left starts with an item of another kind. -/
theorem head?_dropWhile_eq_false (p : α → Bool) (items : List α) :
    ∀ a ∈ (items.dropWhile p).head?, p a = false := by
  intro a ha
  have hnot := List.head?_dropWhile_not p items
  rw [Option.mem_def.1 ha] at hnot
  simpa using hnot

end Kinds

theorem takeWhile_append_stop {p : Char → Bool} (h : p c = false) (before after : List Char) :
    (before ++ c :: after).takeWhile p = before.takeWhile p := by
  rw [List.takeWhile_append, List.takeWhile_cons_of_neg (by simp [h]), List.append_nil]
  split
  next hlength =>
    exact ((List.takeWhile_prefix p).eq_of_length hlength).symm
  next => rfl

theorem dropWhile_append_stop {p : Char → Bool} (h : p c = false) (before after : List Char) :
    (before ++ c :: after).dropWhile p = before.dropWhile p ++ c :: after := by
  rw [List.dropWhile_append, List.dropWhile_cons_of_neg (by simp [h])]
  split
  next hempty => rw [List.isEmpty_iff.1 hempty, List.nil_append]
  next => rfl

/-- What is cut off at the end are characters of the kind. -/
theorem exists_reverse_dropWhile (p : Char → Bool) (text : List Char) :
    ∃ others, (∀ c ∈ others, p c = true) ∧
      (text.reverse.dropWhile p).reverse ++ others = text := by
  refine ⟨(text.reverse.takeWhile p).reverse, fun c hc => ?_, ?_⟩
  · exact List.mem_takeWhile_imp (List.mem_reverse.1 hc)
  · rw [← List.reverse_append, List.takeWhile_append_dropWhile, List.reverse_reverse]

end ActionBook.Text
