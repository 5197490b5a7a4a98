import ActionBook.Proofs.Binding.Scan

/-!
# `Binding.Rereading`: reading a filled template again

A template whose bindings are filled with values without braces has braces in it only where they were
literal. Reading it again finds a binding just where such braces get to enclose a value: an opening
that was left before the value, and a closing after it (`keyless_fill`). The proof follows both
readings at once. Between two bindings of the template, what the second reading has not yet closed is
text before the next place (`exists_unread`).
-/

namespace ActionBook.Binding

variable {text more before inner after left right : List Char} {value : String → String}
  {p : Char → Prop}

/-! ## Texts without keys -/

/-- Reading the text gives no key. -/
def Keyless (text : List Char) : Prop := (segments text).filterMap Segment.key? = []

theorem not_hasClosed_nil : ¬ HasClosed [] :=
  not_hasClosed_of_not_hasPair (not_hasPair_of_not_mem List.not_mem_nil)

theorem keyless_of_not_hasClosed (h : ¬ HasClosed text) : Keyless text := by
  rw [Keyless, segments_of_find?_eq_none (find?_eq_none_iff.2 h)]
  exact filterMap_key?_literals text

/-- After a binding without a key, the rest decides. -/
theorem keyless_of_find?_eq_some {found : Found} (h : find? text = some found)
    (hblank : ∀ c ∈ found.inner, Text.isBlank c) (hafter : Keyless found.after) : Keyless text := by
  rw [Keyless, segments_of_find?_eq_some h, List.filterMap_append,
    Found.filterMap_key?_segments, Text.trim_eq_nil_iff.2 hblank]
  exact hafter

/-- A text that reads without a key has no binding in it. -/
theorem Keyless.not_hasBinding (h : Keyless text) : ¬ HasBinding text := by
  have hproper := (Layout.proper_ofSegments text).lead
  have htext := Layout.text_ofSegments (segments text)
  have hnone : (Layout.ofSegments (segments text)).occurrences = [] := by
    rw [Keyless, ← Layout.keys_ofSegments] at h
    exact List.map_eq_nil_iff.1 h
  rw [Layout.text, hnone, List.flatMap_nil, List.append_nil, source_segments] at htext
  rwa [htext] at hproper

/-! ## Braces around a place -/

/-- An opening that begins in `left` and the first closing after it, which ends in `right`, with no
other opening between them, but with a character of some kind. -/
def Enclosed (p : Char → Prop) (left right : List Char) : Prop :=
  ∃ before inner after, left ++ right = before ++ '{' :: '{' :: inner ++ '}' :: '}' :: after ∧
    before.length < left.length ∧ after.length < right.length ∧
    ¬ HasPair '{' inner ∧ ¬ HasPair '}' (inner ++ ['}']) ∧ ∃ c ∈ inner, p c

theorem not_enclosed_nil : ¬ Enclosed p [] right := by
  rintro ⟨before, inner, after, -, hlength, -⟩
  exact Nat.not_lt_zero _ hlength

/-- The closing ends in the right part, so that its last brace is there. -/
theorem Enclosed.closing_mem (h : Enclosed p left right) : '}' ∈ right := by
  obtain ⟨before, inner, after, heq, -, hafter, -⟩ := h
  have hsplit : left ++ right = (before ++ '{' :: '{' :: inner ++ ['}']) ++ '}' :: after := by
    rw [heq]
    simp
  rcases List.append_eq_append_iff.1 hsplit with ⟨between, -, hright⟩ | ⟨between, -, hright⟩
  · rw [hright]
    simp
  · have hlength := congrArg List.length hright
    rw [List.length_append, List.length_cons] at hlength
    cases between with
    | nil =>
      rw [List.nil_append] at hright
      exact hright ▸ List.mem_cons_self
    | cons c between =>
      rw [List.length_cons] at hlength
      omega

/-- More text before both parts changes nothing. -/
theorem Enclosed.append_left (h : Enclosed p left right) (more : List Char) :
    Enclosed p (more ++ left) right := by
  obtain ⟨before, inner, after, heq, hbefore, hafter⟩ := h
  refine ⟨more ++ before, inner, after, ?_, ?_, hafter⟩
  · rw [List.append_assoc, heq]
    simp
  · rw [List.length_append, List.length_append]
    omega

/-! ## Filled templates -/

/-- A template with a value in the place of every binding. -/
def fill (value : String → String) (template : List Char) : List Char :=
  (segments template).flatMap (Segment.filled value)

theorem toList_substituted (value : String → String) (template : String) :
    (substituted value template).toList = fill value template.toList := by
  rw [substituted, String.toList_ofList, fill]

theorem fill_of_find?_eq_none (h : find? text = none) : fill value text = text := by
  rw [fill, segments_of_find?_eq_none h, flatMap_filled_literals]

theorem fill_of_find?_eq_some {found : Found} (h : find? text = some found) :
    fill value text = found.before ++ found.filled value ++ fill value found.after := by
  rw [fill, segments_of_find?_eq_some h, List.flatMap_append, Found.flatMap_filled_segments]
  rfl

/-- What a template becomes, cut where one of the values begins. -/
def FilledAt (value : String → String) (template left right : List Char) : Prop :=
  ∃ before triple inner after, segments template = before ++ .binding triple inner :: after ∧
    left = before.flatMap (Segment.filled value) ∧
    right = (Segment.binding triple inner :: after).flatMap (Segment.filled value)

theorem FilledAt.append_eq (h : FilledAt value text left right) :
    left ++ right = fill value text := by
  obtain ⟨before, triple, inner, after, hsegments, rfl, rfl⟩ := h
  rw [fill, hsegments, List.flatMap_append]

theorem filledAt_first {found : Found} (h : find? text = some found)
    (hkey : Text.trim found.inner ≠ []) :
    FilledAt value text found.before (found.filled value ++ fill value found.after) := by
  refine ⟨literals found.before, found.triple, found.inner, segments found.after, ?_, ?_, ?_⟩
  · rw [segments_of_find?_eq_some h, Found.segments_of_trim_ne_nil hkey]
    simp [Found.segment]
  · rw [flatMap_filled_literals]
  · rw [Found.filled_of_trim_ne_nil hkey]
    rfl

theorem FilledAt.of_after {found : Found} (h : find? text = some found)
    (hat : FilledAt value found.after left right) :
    FilledAt value text (found.before ++ found.filled value ++ left) right := by
  obtain ⟨before, triple, inner, after, hsegments, rfl, rfl⟩ := hat
  refine ⟨found.segments ++ before, triple, inner, after, ?_, ?_, rfl⟩
  · rw [segments_of_find?_eq_some h, hsegments, List.append_assoc]
  · rw [List.flatMap_append, Found.flatMap_filled_segments]

/-! ## What a reading closes -/

/-- A binding that is found is, but for a third brace, what stands between an opening and the first
closing after it. -/
theorem exists_widened_of_find? {found : Found} (h : find? text = some found) :
    ∃ f : Found, found = f.widened ∧ f.triple = false ∧ Settled f.before ∧
      ¬ HasPair '{' f.inner ∧ ¬ HasPair '}' (f.inner ++ ['}']) := by
  rw [find?] at h
  split at h
  · simp at h
  next before opened hopen =>
    split at h
    · simp at h
    next between after hclose =>
      have hclosing := not_hasPair_of_cutAtPair hclose
      split at h
      next hinner =>
        simp only [Option.some.injEq] at h
        refine ⟨⟨before, false, between, after⟩, h.symm, rfl, fun hlast => ?_,
          not_hasPair_of_cutAtLastPair_eq_none hinner, hclosing⟩
        have hbefore := not_hasPair_of_cutAtPair hopen
        rw [hasPair_concat_iff, not_or] at hbefore
        exact absurd hlast hbefore.2
      next outer inner hinner =>
        simp only [Option.some.injEq] at h
        refine ⟨⟨before ++ '{' :: '{' :: outer, false, inner, after⟩, h.symm, rfl,
          fun _ => hasPair_append before outer, ?_, ?_⟩
        · exact fun h' => not_hasPair_of_cutAtLastPair hinner
            (h'.mono (List.suffix_cons '{' inner).isInfix)
        · refine fun h' => hclosing (h'.mono ?_)
          rw [eq_of_cutAtLastPair hinner]
          exact ⟨outer ++ ['{', '{'], [], by simp⟩

theorem settled_before_of_find? {found : Found} (h : find? text = some found) :
    Settled found.before := by
  obtain ⟨f, rfl, -, hsettled, -⟩ := exists_widened_of_find? h
  have hsame : f.widened.before = f.before := by
    unfold Found.widened
    split <;> rfl
  rwa [hsame]

theorem braceless_of_blank (h : ∀ c ∈ inner, Text.isBlank c) : Braceless inner :=
  ⟨fun hmem => absurd (h '{' hmem) (by decide), fun hmem => absurd (h '}' hmem) (by decide)⟩

/-- What is left after a closing that closes an opening before the text has its own opening before a
lone brace at its end: an opening of the text before the closing would have been closed by it. -/
theorem Settled.after_closing {read opened : List Char} (h : Settled (opened ++ '}' :: after))
    (hclosed : ¬ HasClosed (opened ++ '}' :: after))
    (hread : before ++ opened ++ ['}'] = read ++ ['}', '}']) : Settled after := by
  intro hlast
  have hpair : HasPair '{' (opened ++ '}' :: after) := by
    refine h ?_
    rw [List.getLast?_append, List.getLast?_cons, hlast]
    rfl
  rw [hasPair_append_iff, ← List.singleton_append, hasPair_append_iff] at hpair
  rcases hpair with ⟨left, rest, hopened⟩ | (hbrace | hafter | hmeet) | hmeet
  · -- an opening before the closing would be closed by it
    exfalso
    have hsplit : read ++ '}' :: '}' :: [] = (before ++ left) ++ '{' :: '{' :: (rest ++ ['}']) := by
      rw [← hread, ← hopened]
      simp
    obtain ⟨between, hbetween⟩ :=
      starts_after_pair (by decide) (not_hasPair_of_not_mem (by simp)) hsplit
    refine hclosed ⟨left, between, after, ?_⟩
    have hsource : opened ++ '}' :: after = left ++ '{' :: '{' :: (rest ++ ['}']) ++ after := by
      rw [← hopened]
      simp
    rw [hsource, hbetween]
    simp
  · exact absurd hbrace (not_hasPair_of_not_mem (by decide))
  · exact hafter
  · simp at hmeet
  · simp at hmeet

/-- What is found in a text that closes nothing, a value and more text that closes nothing, but for a
third brace: its opening begins in the text before the value, and its closing ends after the value. -/
theorem exists_around_of_find? {new : List Char} {found : Found} (hbefore : ¬ HasClosed before)
    (hnew : Braceless new) (hmore : ¬ HasClosed more)
    (hfind : find? (before ++ new ++ more) = some found) :
    ∃ fore inner opened after, found = (Found.mk fore false inner after).widened ∧
      more = opened ++ '}' :: after ∧
      fore ++ '{' :: '{' :: inner ++ ['}'] = before ++ new ++ opened ∧
      fore.length < before.length ∧ ¬ HasPair '{' inner ∧ ¬ HasPair '}' (inner ++ ['}']) := by
  obtain ⟨⟨fore, triple, inner, after⟩, hwidened, rfl, -, hopening, hclosing⟩ :=
    exists_widened_of_find? hfind
  have htext : before ++ new ++ more = fore ++ '{' :: '{' :: inner ++ '}' :: '}' :: after := by
    have hsource := eq_of_find? hfind
    rw [hwidened, Found.source_widened _ rfl] at hsource
    rw [hsource]
    simp [Found.segment, Segment.source]
  -- a closing that ends before the value closes its opening there
  obtain ⟨opened, hrest, hread⟩ : ∃ opened, more = opened ++ '}' :: after ∧
      fore ++ '{' :: '{' :: inner ++ ['}'] = before ++ new ++ opened := by
    have hsplit : (fore ++ '{' :: '{' :: inner ++ ['}']) ++ '}' :: after =
        before ++ new ++ more := by
      rw [htext]
      simp
    rcases before_or_after_of_not_mem hsplit hnew.closing with ⟨rest, hearly, -⟩ | hlate
    · exact absurd ⟨fore, inner, rest, by rw [hearly]; simp⟩ hbefore
    · exact hlate
  -- an opening that begins after that text is closed in what follows it
  have hfore : fore.length < before.length := by
    have hlater : ¬ HasClosed (new ++ more) := by rwa [hasClosed_append_iff hnew.opening]
    have hsplit : before ++ (new ++ more) =
        fore ++ ('{' :: '{' :: inner ++ '}' :: '}' :: after) := by
      rw [← List.append_assoc, htext, List.append_assoc]
    rcases List.append_eq_append_iff.1 hsplit with ⟨as, -, has⟩ | ⟨as, hlonger, has⟩
    · exact absurd ⟨as, inner, after, by rw [has, List.append_assoc]⟩ hlater
    · cases as with
      | nil => exact absurd ⟨[], inner, after, has.symm⟩ hlater
      | cons c as =>
        rw [hlonger, List.length_append, List.length_cons]
        omega
  exact ⟨fore, inner, opened, after, hwidened, hrest, hread, hfore, hopening, hclosing⟩

/-- Of a text that closes nothing, a value and more text that closes nothing, some part at the end is
left to read that closes nothing either, unless an opening of the text before the value is closed
after it around something that is not blank. -/
theorem exists_unread {new : List Char} (hbefore : ¬ HasClosed before) (hsettled : Settled before)
    (hnew : Braceless new) (hmore : ¬ HasClosed more) (tail : List Char)
    (hnot : ¬ Enclosed (¬ Text.isBlank ·) before (new ++ more ++ tail)) :
    ∃ read unread, before ++ new ++ more = read ++ unread ∧ ¬ HasClosed unread ∧
      (Settled more → Settled unread) ∧
      (Keyless (unread ++ tail) → Keyless (before ++ new ++ more ++ tail)) := by
  cases hfind : find? (before ++ new ++ more) with
  | none =>
    exact ⟨[], before ++ new ++ more, rfl, find?_eq_none_iff.1 hfind,
      (hsettled.append (settled_of_not_mem hnew.opening)).append, id⟩
  | some found =>
    obtain ⟨fore, inner, opened, after, hwidened, hrest, hread, hfore, hopening, hclosing⟩ :=
      exists_around_of_find? hbefore hnew hmore hfind
    have hblank : ∀ c ∈ inner, Text.isBlank c := by
      by_contra hplain
      push Not at hplain
      refine hnot ⟨fore, inner, after ++ tail, ?_, hfore, ?_, hopening, hclosing, hplain⟩
      · rw [← List.append_assoc, ← List.append_assoc, hrest, ← List.append_assoc, ← hread]
        simp
      · rw [hrest]
        simp only [List.length_append, List.length_cons]
        omega
    have hself : found = ⟨fore, false, inner, after⟩ := by
      rw [hwidened, Found.widened_eq_self (.inl ((braceless_of_blank hblank).head?_ne))]
    refine ⟨before ++ new ++ opened ++ ['}'], after, ?_, ?_, ?_, fun hkeyless => ?_⟩
    · rw [hrest]
      simp
    · rintro ⟨left, between, right, rfl⟩
      exact hmore ⟨opened ++ '}' :: left, between, right, by rw [hrest]; simp⟩
    · intro hsettledMore
      rw [hrest] at hsettledMore hmore
      have hends : before ++ new ++ opened ++ ['}'] =
          fore ++ '{' :: '{' :: inner ++ ['}', '}'] := by
        rw [← hread]
        simp
      exact hsettledMore.after_closing hmore hends
    · have hmoreText : find? (before ++ new ++ more ++ tail) = some (found.followedBy tail) := by
        apply find?_append hfind
        left
        rw [hself]
        exact (braceless_of_blank hblank).head?_ne
      rw [hself] at hmoreText
      exact keyless_of_find?_eq_some hmoreText hblank hkeyless

/-! ## Both readings -/

/-- A binding without a key reads without a key after any text that closes nothing. After an opening
that waits for its closing, its third brace is left for the text after it. -/
theorem keyless_blank {triple : Bool} (hclosed : ¬ HasClosed text) (hsettled : Settled text)
    (hblank : ∀ c ∈ inner, Text.isBlank c) (hafter : Keyless after) :
    Keyless (text ++ (Segment.binding triple inner).source ++ after) := by
  have hinner := braceless_of_blank hblank
  cases triple with
  | false =>
    have hfind := find?_double hinner hclosed hsettled after
    have hsource : text ++ (Segment.binding false inner).source ++ after =
        text ++ '{' :: '{' :: inner ++ '}' :: '}' :: after := by simp [Segment.source]
    rw [hsource]
    exact keyless_of_find?_eq_some hfind hblank hafter
  | true =>
    have hsource : text ++ (Segment.binding true inner).source ++ after =
        text ++ '{' :: '{' :: '{' :: inner ++ '}' :: '}' :: '}' :: after := by
      simp [Segment.source]
    rw [hsource]
    by_cases hopen : HasPair '{' text
    · have hsettled' : Settled (text ++ ['{']) := fun _ => hasPair_append_iff.2 (.inl hopen)
      have hclosed' : ¬ HasClosed (text ++ ['{']) :=
        not_hasClosed_append_of_not_mem hclosed (by decide)
      have hfind := find?_double hinner hclosed' hsettled' ('}' :: after)
      rw [List.append_assoc, List.append_assoc] at hfind
      rw [List.append_assoc]
      refine keyless_of_find?_eq_some hfind hblank ?_
      have hbrace : '}' :: after = ['}'] ++ after := rfl
      rw [Keyless, hbrace, filterMap_key?_append_of_not_mem (by decide)]
      exact hafter
    · exact keyless_of_find?_eq_some (find?_triple hinner (hsettled.not_hasPair_concat hopen) after)
        hblank hafter

/-- Reading goes on without a key after text that closes nothing and a value, if the template that
follows is filled and no braces get to enclose a value. -/
theorem keyless_append_fill (hvalue : ∀ k, Braceless (value k).toList) (template : List Char)
    {before new : List Char} (hbefore : ¬ HasClosed before) (hsettled : Settled before)
    (hnew : Braceless new)
    (hnot : ¬ Enclosed (¬ Text.isBlank ·) before (new ++ fill value template))
    (hplaces : ∀ left right, FilledAt value template left right →
      ¬ Enclosed (¬ Text.isBlank ·) (before ++ new ++ left) right) :
    Keyless (before ++ new ++ fill value template) := by
  fun_induction scan template generalizing before new with
  | case1 template h =>
    rw [fill_of_find?_eq_none h] at hnot ⊢
    obtain ⟨read, unread, -, hclosed, -, hkeyless⟩ :=
      exists_unread hbefore hsettled hnew (not_hasClosed_of_find?_eq_none h) []
        (by rwa [List.append_nil])
    simp only [List.append_nil] at hkeyless
    exact hkeyless (keyless_of_not_hasClosed hclosed)
  | case2 template found h this ih =>
    rw [fill_of_find?_eq_some h] at hnot ⊢
    obtain ⟨read, unread, hread, hclosed, hsettledUnread, hkeyless⟩ :=
      exists_unread hbefore hsettled hnew (innermost_of_find? h).before
        (found.filled value ++ fill value found.after)
        (by simpa only [List.append_assoc] using hnot)
    replace hsettledUnread := hsettledUnread (settled_before_of_find? h)
    -- what is read up to here only moves the places, which are the same in both readings
    have hlater {left right : List Char} (hat : FilledAt value found.after left right) :
        ¬ Enclosed (¬ Text.isBlank ·) (unread ++ found.filled value ++ left) right := by
      intro henclosed
      refine hplaces _ _ (FilledAt.of_after h hat) ?_
      have hplace := henclosed.append_left read
      simp only [← List.append_assoc] at hplace ⊢
      rwa [hread]
    have hgoal : Keyless (unread ++ (found.filled value ++ fill value found.after)) := by
      by_cases hkey : Text.trim found.inner = []
      · rw [Found.filled_of_trim_eq_nil hkey, ← List.append_assoc]
        refine keyless_blank hclosed hsettledUnread (Text.trim_eq_nil_iff.1 hkey) ?_
        exact ih not_hasClosed_nil (settled_of_not_mem List.not_mem_nil) .nil not_enclosed_nil
          fun left right hat henclosed => hlater hat (henclosed.append_left _)
      · have hfilled : found.filled value =
            (value (String.ofList (Text.trim found.inner))).toList :=
          Found.filled_of_trim_ne_nil hkey
        rw [← List.append_assoc]
        refine ih hclosed hsettledUnread (hfilled ▸ hvalue _) (fun henclosed => ?_)
          fun left right hat => hlater hat
        refine hplaces _ _ (filledAt_first h hkey) ?_
        rw [hread]
        exact henclosed.append_left read
    simpa only [List.append_assoc] using hkeyless hgoal

/-- A template filled with values without braces reads without a key, unless braces in it get to
enclose one of the values. -/
theorem keyless_fill (hvalue : ∀ k, Braceless (value k).toList)
    (hnot : ∀ left right, FilledAt value text left right →
      ¬ Enclosed (¬ Text.isBlank ·) left right) : Keyless (fill value text) := by
  exact keyless_append_fill hvalue text not_hasClosed_nil (settled_of_not_mem List.not_mem_nil) .nil
    not_enclosed_nil hnot

/-- Braces that enclose one of the values and a plain character make a key. -/
theorem not_keyless_fill (hat : FilledAt value text left right) (h : Enclosed IsPlain left right) :
    ¬ Keyless (fill value text) := by
  obtain ⟨before, inner, after, heq, -, -, hopening, hclosing, hplain⟩ := h
  rw [← hat.append_eq]
  intro hkeyless
  exact hkeyless.not_hasBinding ⟨before, inner, after, heq, hopening,
    fun h => hclosing (h.mono (List.prefix_append inner _).isInfix), hplain⟩

end ActionBook.Binding
