import ActionBook.Binding.Segment

/-!
# `Binding.Pairs`: where pairs of braces can be

`HasPair c text` says that somewhere in a text two `c` stand next to each other. The cuts of
`cutAtPair` and `cutAtLastPair` are at the first and at the last such place
(`not_hasPair_of_cutAtPair`, `not_hasPair_of_cutAtLastPair`).

The other lemmas compare two ways to write one text around pairs: a pair that a part of the text
cannot have has to be somewhere else.
-/

namespace ActionBook.Binding

/-- Somewhere in the text two `c` stand next to each other. -/
def HasPair (c : Char) (text : List Char) : Prop := [c, c] <:+: text

variable {c : Char} {text before after : List Char}

theorem HasPair.mono {part : List Char} (h : HasPair c part) (hpart : part <:+: text) :
    HasPair c text :=
  List.IsInfix.trans h hpart

theorem hasPair_append (before after : List Char) : HasPair c (before ++ c :: c :: after) :=
  ⟨before, after, by simp⟩

theorem hasPair_cons_cons_iff {a b : Char} {rest : List Char} :
    HasPair c (a :: b :: rest) ↔ (a = c ∧ b = c) ∨ HasPair c (b :: rest) := by
  rw [HasPair, List.infix_cons_iff, List.cons_prefix_cons, List.cons_prefix_cons]
  simp only [List.nil_prefix, and_true]
  rw [eq_comm (a := c) (b := a), eq_comm (a := c) (b := b)]
  rfl

theorem not_hasPair_singleton (a : Char) : ¬ HasPair c [a] := by
  intro h
  have hlen := List.IsInfix.length_le h
  simp at hlen

/-! ## The cuts -/

/-- Fewer than two characters are no pair. -/
theorem not_hasPair_of_short (hshort : ∀ a b rest, text = a :: b :: rest → False) :
    ¬ HasPair c text := by
  intro hinfix
  have hlen : [c, c].length ≤ text.length := hinfix.length_le
  cases text with
  | nil => simp at hlen
  | cons a rest =>
    cases rest with
    | nil => simp at hlen
    | cons b rest => exact hshort a b rest rfl

/-- There is no cut only where there is no pair. -/
theorem not_hasPair_of_cutAtPair_eq_none (h : cutAtPair c text = none) : ¬ HasPair c text := by
  fun_induction cutAtPair c text with
  | case1 a b rest hpair => simp at h
  | case2 a b rest hpair ih =>
    rw [hasPair_cons_cons_iff, not_or]
    exact ⟨hpair, ih (Option.map_eq_none_iff.1 h)⟩
  | case3 text hshort => exact not_hasPair_of_short hshort

/-- The first pair is at the cut: there is none before it, also none that overlaps it. -/
theorem not_hasPair_of_cutAtPair (h : cutAtPair c text = some (before, after)) :
    ¬ HasPair c (before ++ [c]) := by
  fun_induction cutAtPair c text generalizing before with
  | case1 a b rest hpair =>
    simp only [Option.some.injEq, Prod.mk.injEq] at h
    rw [← h.1]
    exact not_hasPair_singleton c
  | case2 a b rest hpair ih =>
    obtain ⟨⟨x, y⟩, hcut, heq⟩ := Option.map_eq_some_iff.1 h
    simp only [Prod.mk.injEq] at heq
    obtain ⟨rfl, rfl⟩ := heq
    have hx := ih hcut
    have hb := eq_of_cutAtPair hcut
    -- the text after `a` begins with `b`, and so does what stands before the cut
    cases x with
    | nil =>
      simp only [List.nil_append, List.cons.injEq] at hb
      intro h'
      rcases hasPair_cons_cons_iff.1 h' with h' | h'
      · exact hpair ⟨h'.1, hb.1⟩
      · exact not_hasPair_singleton c h'
    | cons d x =>
      simp only [List.cons_append, List.cons.injEq] at hb
      intro h'
      rcases hasPair_cons_cons_iff.1 h' with h' | h'
      · exact hpair ⟨h'.1, hb.1.trans h'.2⟩
      · exact hx h'
  | case3 => simp at h

/-- There is no last cut only where there is no pair. -/
theorem not_hasPair_of_cutAtLastPair_eq_none (h : cutAtLastPair c text = none) :
    ¬ HasPair c text := by
  fun_induction cutAtLastPair c text with
  | case1 a b rest x y hcut ih => simp at h
  | case2 a b rest hcut hpair ih => simp at h
  | case3 a b rest hcut hpair ih =>
    rw [hasPair_cons_cons_iff, not_or]
    exact ⟨hpair, ih hcut⟩
  | case4 text hshort => exact not_hasPair_of_short hshort

/-- The last pair is at the last cut: there is none after it, also none that overlaps it. -/
theorem not_hasPair_of_cutAtLastPair (h : cutAtLastPair c text = some (before, after)) :
    ¬ HasPair c (c :: after) := by
  fun_induction cutAtLastPair c text generalizing before with
  | case1 a b rest x y hcut ih =>
    simp only [Option.some.injEq, Prod.mk.injEq] at h
    obtain ⟨-, rfl⟩ := h
    exact ih hcut
  | case2 a b rest hcut hpair ih =>
    simp only [Option.some.injEq, Prod.mk.injEq] at h
    rw [← h.2, ← hpair.2]
    exact not_hasPair_of_cutAtLastPair_eq_none (hpair.2 ▸ hcut)
  | case3 => simp at h
  | case4 => simp at h

/-! ## Cuts of longer texts -/

theorem not_hasPair_of_not_mem (h : c ∉ text) : ¬ HasPair c text := fun hpair =>
  h (hpair.subset (List.mem_cons_self ..))

/-- A pair in two texts put together is in one of them, or where they meet. -/
theorem hasPair_append_iff {left right : List Char} :
    HasPair c (left ++ right) ↔
      HasPair c left ∨ HasPair c right ∨ (left.getLast? = some c ∧ right.head? = some c) := by
  induction left with
  | nil => simp [HasPair]
  | cons a left ih =>
    cases left with
    | nil =>
      cases right with
      | nil => simp [HasPair]
      | cons b right =>
        simp only [List.cons_append, List.nil_append, hasPair_cons_cons_iff,
          not_hasPair_singleton, List.getLast?_singleton, List.head?_cons, Option.some.injEq,
          false_or]
        exact Or.comm
    | cons b left =>
      rw [List.cons_append] at ih
      rw [List.cons_append, List.cons_append, hasPair_cons_cons_iff, ih, hasPair_cons_cons_iff,
        List.getLast?_cons_cons, or_assoc]

theorem hasPair_concat_iff : HasPair c (text ++ [c]) ↔ HasPair c text ∨ text.getLast? = some c := by
  simp [hasPair_append_iff, not_hasPair_singleton]

/-- More text after a text does not move its first pair. -/
theorem cutAtPair_append (h : cutAtPair c text = some (before, after)) (more : List Char) :
    cutAtPair c (text ++ more) = some (before, after ++ more) := by
  fun_induction cutAtPair c text generalizing before with
  | case1 a b rest hpair =>
    simp only [Option.some.injEq, Prod.mk.injEq] at h
    obtain ⟨rfl, rfl⟩ := h
    rw [List.cons_append, List.cons_append, cutAtPair, if_pos hpair]
  | case2 a b rest hpair ih =>
    obtain ⟨⟨x, y⟩, hcut, heq⟩ := Option.map_eq_some_iff.1 h
    simp only [Prod.mk.injEq] at heq
    obtain ⟨rfl, rfl⟩ := heq
    have hmore := ih hcut
    rw [List.cons_append] at hmore
    rw [List.cons_append, List.cons_append, cutAtPair, if_neg hpair, hmore, Option.map_some]
  | case3 => simp at h

/-- A text is cut at a pair that nothing before it is part of. -/
theorem cutAtPair_eq_some (h : ¬ HasPair c (before ++ [c])) (after : List Char) :
    cutAtPair c (before ++ c :: c :: after) = some (before, after) := by
  induction before with
  | nil => simp [cutAtPair]
  | cons d before ih =>
    have htail : ¬ HasPair c (before ++ [c]) := fun h' =>
      h (h'.mono (List.suffix_cons d _).isInfix)
    have hcut := ih htail
    cases before with
    | nil =>
      have hd : ¬ (d = c ∧ c = c) := fun h' => h (hasPair_cons_cons_iff.2 (.inl h'))
      rw [List.nil_append] at hcut
      rw [List.cons_append, List.nil_append, cutAtPair, if_neg hd, hcut, Option.map_some]
    | cons e before =>
      have hd : ¬ (d = c ∧ e = c) := fun h' => h (hasPair_cons_cons_iff.2 (.inl h'))
      rw [List.cons_append] at hcut
      rw [List.cons_append, List.cons_append, cutAtPair, if_neg hd, hcut, Option.map_some]

/-- Before a text that is cut there may stand any text without the character. -/
theorem cutAtPair_append_of_not_mem {left : List Char} (h : c ∉ left) (text : List Char) :
    cutAtPair c (left ++ text) = (cutAtPair c text).map fun cut => (left ++ cut.1, cut.2) := by
  induction left with
  | nil => cases hcut : cutAtPair c text <;> simp [hcut]
  | cons d left ih =>
    rw [List.mem_cons, not_or] at h
    have hd : cutAtPair c (d :: (left ++ text)) =
        (cutAtPair c (left ++ text)).map fun cut => (d :: cut.1, cut.2) := by
      cases left ++ text with
      | nil => rfl
      | cons e rest => rw [cutAtPair, if_neg fun hpair => h.1 hpair.1.symm]
    rw [List.cons_append, hd, ih h.2, Option.map_map]
    rfl

theorem cutAtLastPair_eq_none (h : ¬ HasPair c text) : cutAtLastPair c text = none := by
  cases hcut : cutAtLastPair c text with
  | none => rfl
  | some cut =>
    rw [eq_of_cutAtLastPair hcut] at h
    exact absurd (hasPair_append cut.1 cut.2) h

/-- A text is cut last at a pair that nothing after it is part of. -/
theorem cutAtLastPair_eq_some (h : ¬ HasPair c (c :: after)) (before : List Char) :
    cutAtLastPair c (before ++ c :: c :: after) = some (before, after) := by
  induction before with
  | nil => simp [cutAtLastPair, cutAtLastPair_eq_none h]
  | cons d before ih =>
    cases before with
    | nil =>
      rw [List.nil_append] at ih
      rw [List.cons_append, List.nil_append, cutAtLastPair, ih]
    | cons e before =>
      rw [List.cons_append] at ih
      rw [List.cons_append, List.cons_append, cutAtLastPair, ih]

/-! ## Two ways to write a text -/

/-- The part of a text after its first pair goes at least as far as that after any pair. -/
theorem isSuffix_after_first_pair {first rest other tail : List Char}
    (hfirst : ¬ HasPair c (first ++ [c]))
    (h : other ++ c :: c :: tail = first ++ c :: c :: rest) : tail <:+ rest := by
  induction first generalizing other with
  | nil =>
    match other, h with
    | [], h => simp_all
    | [d], h =>
      simp only [List.cons_append, List.nil_append, List.cons.injEq] at h
      exact ⟨[c], by simp [h.2.2]⟩
    | d :: e :: other, h =>
      simp only [List.cons_append, List.nil_append, List.cons.injEq] at h
      exact ⟨other ++ [c, c], by simp [← h.2.2]⟩
  | cons d first ih =>
    have htail : ¬ HasPair c (first ++ [c]) := fun h' =>
      hfirst (h'.mono (List.suffix_cons d _).isInfix)
    cases other with
    | nil =>
      simp only [List.cons_append, List.nil_append, List.cons.injEq] at h
      -- the first two characters would be a pair before the first one
      exfalso
      cases first with
      | nil => exact hfirst (hasPair_cons_cons_iff.2 (.inl ⟨h.1.symm, rfl⟩))
      | cons e first =>
        simp only [List.cons_append, List.cons.injEq] at h
        exact hfirst (hasPair_cons_cons_iff.2 (.inl ⟨h.1.symm, h.2.1.symm⟩))
    | cons e other =>
      simp only [List.cons_append, List.cons.injEq] at h
      exact ih htail h.2

/-- A text that cannot reach over a pair of `b` and is followed by a pair of `a` ends, with that
pair, before the pair of `b`. -/
theorem ends_before_pair {a b : Char} (hab : a ≠ b) {part tail left right : List Char}
    (hpart : ¬ HasPair b part) (h : part ++ a :: a :: tail = left ++ b :: b :: right) :
    ∃ rest, left = part ++ a :: a :: rest := by
  induction part generalizing left with
  | nil =>
    match left, h with
    | [], h =>
      simp only [List.nil_append, List.cons.injEq] at h
      exact absurd h.1 hab
    | [d], h =>
      simp only [List.nil_append, List.cons_append, List.cons.injEq] at h
      exact absurd h.2.1 hab
    | d :: e :: left, h =>
      simp only [List.nil_append, List.cons_append, List.cons.injEq] at h
      exact ⟨left, by rw [← h.1, ← h.2.1]; rfl⟩
  | cons d part ih =>
    have htail : ¬ HasPair b part := fun h' => hpart (h'.mono (List.suffix_cons d _).isInfix)
    cases left with
    | nil =>
      simp only [List.cons_append, List.nil_append, List.cons.injEq] at h
      exfalso
      cases part with
      | nil => simp_all
      | cons e part =>
        simp only [List.cons_append, List.cons.injEq] at h
        exact hpart (hasPair_cons_cons_iff.2 (.inl ⟨h.1, h.2.1⟩))
    | cons e left =>
      simp only [List.cons_append, List.cons.injEq] at h
      obtain ⟨rest, hrest⟩ := ih htail h.2
      exact ⟨rest, by rw [h.1, hrest, List.cons_append]⟩

theorem hasPair_reverse_iff : HasPair c text.reverse ↔ HasPair c text := by
  have hreverse : [c, c].reverse <:+: text.reverse ↔ [c, c] <:+: text := List.reverse_infix
  exact hreverse

/-- The mirror image of `ends_before_pair`: a text that cannot reach back over a pair of `a` and
follows a pair of `b` starts, with that pair, after the pair of `a`. -/
theorem starts_after_pair {a b : Char} (hab : a ≠ b) {head part left right : List Char}
    (hpart : ¬ HasPair a part) (h : head ++ b :: b :: part = left ++ a :: a :: right) :
    ∃ rest, right = rest ++ b :: b :: part := by
  have hreverse := congrArg List.reverse h
  simp only [List.reverse_append, List.reverse_cons, List.append_assoc, List.cons_append,
    List.nil_append] at hreverse
  obtain ⟨rest, hrest⟩ :=
    ends_before_pair hab.symm (fun h' => hpart (hasPair_reverse_iff.1 h')) hreverse
  refine ⟨rest.reverse, ?_⟩
  have hback := congrArg List.reverse hrest
  simpa using hback

/-- A character that the middle part of a text does not have is before it or after it. -/
theorem before_or_after_of_not_mem {head tail left middle right : List Char}
    (h : head ++ c :: tail = left ++ middle ++ right) (hc : c ∉ middle) :
    (∃ rest, left = head ++ c :: rest ∧ tail = rest ++ middle ++ right) ∨
      ∃ rest, right = rest ++ c :: tail ∧ head = left ++ middle ++ rest := by
  rw [List.append_assoc] at h
  rcases List.append_eq_append_iff.1 h with ⟨as, hleft, has⟩ | ⟨bs, hhead, hbs⟩
  · cases as with
    | nil =>
      cases middle with
      | nil => exact .inr ⟨[], by simp_all, by simp_all⟩
      | cons d middle => simp_all
    | cons d as =>
      simp only [List.cons_append, List.cons.injEq] at has
      obtain ⟨rfl, rfl⟩ := has
      exact .inl ⟨as, hleft, by simp⟩
  · rcases List.append_eq_append_iff.1 hbs with ⟨as, hbs', hright⟩ | ⟨es, hmiddle, hes⟩
    · exact .inr ⟨as, hright, by rw [hhead, hbs', List.append_assoc]⟩
    · cases es with
      | nil => exact .inr ⟨[], by simp_all, by simp_all⟩
      | cons d es => simp_all

end ActionBook.Binding
