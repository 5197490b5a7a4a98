import ActionBook.Proofs.Text.Ascii
import ActionBook.Proofs.Url.Escaping
import ActionBook.Proofs.Url.Reading

/-!
# `Url.Path`: where a path leads

A path is followed segment by segment, and where its segments lead does not depend on what comes after
them: only dots at the very end leave an empty segment (`follow_append_singleton`). So a path that goes
on with a slash is the one it has led to so far (`writeDirectory`), a slash, and what comes after it, as
long as that has no dots or escapes in it (`write_readPath_slash`).
-/

namespace ActionBook.Url

variable {segment text edges : List Char} {segments : List (List Char)} {special : Bool}

/-! ## Segments -/

/-- Whether a segment stands for the place it is at or for the one above. -/
def isDots (segment : List Char) : Bool := isSingleDot segment || isDoubleDot segment

/-- Without escapes, dots are one or two. -/
theorem isDots_eq_false (hkept : ∀ c ∈ segment, c ≠ '%')
    (hdots : segment ≠ ['.'] ∧ segment ≠ ['.', '.']) : isDots segment = false := by
  have hno (dots : List Char) (hsign : '%' ∈ dots) : segment.map Char.toLower ≠ dots := by
    rintro rfl
    obtain ⟨c, hc, hlower⟩ := List.mem_map.1 hsign
    exact hkept c hc (Text.eq_of_toLower_eq hlower (by decide))
  have heq (dots : List Char) (hall : ∀ d ∈ dots, d = '.') (h : segment.map Char.toLower = dots) :
      segment = dots := by
    subst h
    refine ((List.map_congr_left fun c hc => ?_).trans (List.map_id segment)).symm
    have hlower := hall _ (List.mem_map_of_mem hc)
    rw [hlower]
    exact (Text.eq_of_toLower_eq hlower (by decide)).symm
  rw [isDots, isSingleDot, isDoubleDot, Bool.eq_false_iff]
  intro h
  simp only [Bool.or_eq_true, decide_eq_true_eq] at h
  rcases h with (h | h) | (((h | h) | h) | h)
  · exact hdots.1 (heq _ (by simp) h)
  · exact hno _ (by simp) h
  · exact hdots.2 (heq _ (by simp) h)
  all_goals exact hno _ (by simp) h

/-- The place that a segment leads to. Places are given by their segments from the last to the first. -/
def enter (place : List (List Char)) (segment : List Char) : List (List Char) :=
  if isDoubleDot segment then if place.head?.any isDrive then place else place.tail
  else if isSingleDot segment then place
  else escaped keptInPath segment :: place

theorem enter_of_not_isDots (h : isDots segment = false) (place : List (List Char)) :
    enter place segment = escaped keptInPath segment :: place := by
  obtain ⟨hsingle, hdouble⟩ := Bool.or_eq_false_iff.1 h
  simp only [enter, hsingle, hdouble, Bool.false_eq_true, if_false]

/-- Segments lead on from where the ones before have led; dots at the end leave an empty segment. -/
theorem follow_append_singleton (place segments : List (List Char)) (segment : List Char) :
    follow false place (segments ++ [segment]) =
      ((if isDots segment then [[]] else []) ++ (segments ++ [segment]).foldl enter place).reverse := by
  induction segments generalizing place with
  | nil =>
    rw [List.nil_append, List.foldl_cons, List.foldl_nil, follow, isDots, enter]
    split
    next hdouble => simp [follow, hdouble]
    next hdouble =>
      split
      next hsingle => simp [follow, hsingle]
      next hsingle => simp [follow, hsingle, hdouble, writtenAt]
  | cons first segments ih =>
    -- the first segment is not the last, so its dots leave nothing behind
    have hmore : (segments ++ [segment]).isEmpty = false := by simp
    rw [List.cons_append, List.foldl_cons, ← ih, follow, enter, hmore]
    split
    · rfl
    · split
      · rfl
      · rfl

/-- Without dots at the end, nothing comes after the place that segments lead to. -/
theorem follow_of_not_isDots (h : ∀ s ∈ segments.getLast?, isDots s = false)
    (place : List (List Char)) :
    follow false place segments = (segments.foldl enter place).reverse := by
  rcases List.eq_nil_or_concat segments with rfl | ⟨init, segment, rfl⟩
  · rfl
  · rw [List.concat_eq_append] at h ⊢
    have hlast : isDots segment = false := h segment (by simp)
    rw [follow_append_singleton, hlast]
    rfl

/-- At most an empty segment comes after the place that segments lead to. -/
theorem follow_eq_or (place segments : List (List Char)) :
    follow false place segments = (segments.foldl enter place).reverse ∨
      follow false place segments = (segments.foldl enter place).reverse ++ [[]] := by
  rcases List.eq_nil_or_concat segments with rfl | ⟨init, segment, rfl⟩
  · exact .inl rfl
  · rw [List.concat_eq_append, follow_append_singleton]
    cases isDots segment
    · exact .inl rfl
    · exact .inr (List.reverse_cons ..)

/-- Whether a segment has no escapes and is no dots. -/
def IsName (segment : List Char) : Prop := isDots segment = false ∧ ∀ c ∈ segment, keptInPath c = true

/-- Names lead one by one to what is named. -/
theorem foldl_enter_of_isName (h : ∀ s ∈ segments, IsName s) (place : List (List Char)) :
    segments.foldl enter place = segments.reverse ++ place := by
  induction segments generalizing place with
  | nil => rfl
  | cons segment segments ih =>
    obtain ⟨⟨hdots, hkept⟩, hsegments⟩ := List.forall_mem_cons.1 h
    rw [List.foldl_cons, ih hsegments, enter_of_not_isDots hdots, escaped_eq_self hkept,
      List.reverse_cons, List.append_assoc, List.singleton_append]

/-! ## Paths -/

/-- Whether a text can follow the authority of an address and come before its query. -/
def IsRooted (text : List Char) : Prop := ∀ c ∈ text.head?, c = '/' ∨ c = '\\'

/-- The place that a path leads to if it goes on. -/
def directory (text : List Char) : List (List Char) :=
  match text with
  | [] => []
  | _ :: rest => (Text.splitOn '/' (withSlashes rest)).foldl enter []

/-- The text of the path up to where it leads if it goes on. -/
def writeDirectory (text : List Char) : List Char := (Path.segments (directory text).reverse).write

theorem write_segments_append (segments more : List (List Char)) :
    (Path.segments (segments ++ more)).write =
      (Path.segments segments).write ++ (Path.segments more).write := List.flatMap_append

theorem readPath_cons {c : Char} (h : c = '/' ∨ c = '\\') (text : List Char) :
    readPath true (c :: text) =
      .segments (follow false [] (Text.splitOn '/' (withSlashes text))) := by
  rcases h with rfl | rfl <;> rfl

theorem withSlashes_slash (text more : List Char) :
    withSlashes (text ++ '/' :: more) = withSlashes text ++ '/' :: withSlashes more := by
  simp [withSlashes]

theorem withSlashes_eq_self (h : '\\' ∉ text) : withSlashes text = text := by
  refine (List.map_congr_left fun c hc => ?_).trans (List.map_id text)
  refine if_neg ?_
  rintro rfl
  exact h hc

/-- A text of names with slashes between them. -/
structure IsNames (text : List Char) : Prop where
  kept : ∀ c ∈ text, keptInPath c = true ∧ c ≠ '\\'
  not_dots : ∀ s ∈ Text.splitOn '/' text, isDots s = false

theorem IsNames.isName (h : IsNames text) : ∀ s ∈ Text.splitOn '/' text, IsName s :=
  fun s hs => ⟨h.not_dots s hs, fun c hc => (h.kept c (Text.of_mem_splitOn hs hc).2).1⟩

theorem IsNames.withSlashes_eq (h : IsNames text) : withSlashes text = text :=
  withSlashes_eq_self fun hmem => (h.kept _ hmem).2 rfl

theorem IsNames.of_slashes (h : ∀ c ∈ text, c = '/') : IsNames text where
  kept := by
    intro c hc
    rw [h c hc]
    decide
  not_dots := by
    intro s hs
    have hnil : s = [] := List.eq_nil_iff_forall_not_mem.2 fun c hc =>
      (Text.of_mem_splitOn hs hc).1 (h c (Text.of_mem_splitOn hs hc).2)
    rw [hnil]
    decide

theorem follow_slash (place segments : List (List Char)) {more : List Char} (h : IsNames more) :
    follow false place (segments ++ Text.splitOn '/' more) =
      (segments.foldl enter place).reverse ++ Text.splitOn '/' more := by
  have hlast : ∀ s ∈ (segments ++ Text.splitOn '/' more).getLast?, isDots s = false := by
    intro s hs
    rw [List.getLast?_append_of_ne_nil _ (Text.splitOn_ne_nil '/' more)] at hs
    exact h.not_dots s (List.mem_of_getLast? hs)
  rw [follow_of_not_isDots hlast, List.foldl_append, foldl_enter_of_isName h.isName, List.reverse_append,
    List.reverse_reverse]

/-- A path that goes on with names. -/
theorem write_readPath_slash (htext : IsRooted text) {more : List Char} (h : IsNames more) :
    (readPath true (text ++ '/' :: more)).write = writeDirectory text ++ '/' :: more := by
  have hmore : (Path.segments (Text.splitOn '/' more)).write = '/' :: more :=
    Text.flatMap_splitOn '/' more
  cases text with
  | nil =>
    have hfollow := follow_slash [] [] h
    rw [List.nil_append, readPath_cons (.inl rfl), h.withSlashes_eq]
    exact (congrArg (fun segments => (Path.segments segments).write) hfollow).trans hmore
  | cons c text =>
    rw [List.cons_append, readPath_cons (htext c rfl), withSlashes_slash, h.withSlashes_eq,
      Text.splitOn_append, follow_slash [] _ h, write_segments_append, hmore]
    rfl

/-- A path that ends leads to the same place as if it went on, with a slash after it perhaps. -/
theorem write_readPath_eq_or (htext : IsRooted text) :
    (readPath true text).write = writeDirectory text ∨
      (readPath true text).write = writeDirectory text ++ ['/'] := by
  cases text with
  | nil => exact .inr rfl
  | cons c text =>
    rw [readPath_cons (htext c rfl)]
    rcases follow_eq_or [] (Text.splitOn '/' (withSlashes text)) with hfollow | hfollow
    · rw [hfollow]
      exact .inl rfl
    · rw [hfollow, write_segments_append]
      exact .inr rfl

/-! ## Paths that go on with controls and blanks -/

theorem length_write_enter_le (place : List (List Char)) (segment : List Char) :
    (Path.segments (enter place segment).reverse).write.length ≤
      (Path.segments place.reverse).write.length + (1 + (escaped keptInPath segment).length) := by
  unfold enter
  split
  · split
    · exact Nat.le_add_right ..
    · cases place with
      | nil => exact Nat.le_add_right ..
      | cons above place =>
        rw [List.tail_cons, List.reverse_cons, write_segments_append, List.length_append]
        omega
  · split
    · exact Nat.le_add_right ..
    · rw [List.reverse_cons, write_segments_append, List.length_append]
      simp [Path.write, Nat.add_comm]

theorem isDots_append_edges (hnone : edges ≠ []) (hedges : ∀ c ∈ edges, isEdge c = true)
    (segment : List Char) : isDots (segment ++ edges) = false := by
  -- dots end with a dot or, escaped, with a letter
  have hlast (dots : List Char) (h : (segment ++ edges).map Char.toLower = dots) :
      ∀ c ∈ dots.getLast?, c ≠ '.' ∧ c ≠ 'e' := by
    intro c hc
    rw [← h, List.getLast?_map, List.getLast?_append_of_ne_nil _ hnone] at hc
    obtain ⟨d, hd, rfl⟩ := Option.map_eq_some_iff.1 hc
    have hlower := of_isEdge (p := fun d => decide (d.toLower ≠ '.' ∧ d.toLower ≠ 'e'))
      (hedges d (List.mem_of_getLast? hd)) (by decide)
    exact of_decide_eq_true hlower
  rw [isDots, isSingleDot, isDoubleDot, Bool.eq_false_iff]
  intro hdots
  simp only [Bool.or_eq_true, decide_eq_true_eq] at hdots
  rcases hdots with (h | h) | (((h | h) | h) | h)
  all_goals simpa using hlast _ h

theorem escaped_ne_nil (keeps : Char → Bool) (h : text ≠ []) : escaped keeps text ≠ [] := by
  obtain ⟨c, rest, rfl⟩ := List.exists_cons_of_ne_nil h
  rw [escaped, List.flatMap_cons, escapedChar]
  split
  · simp
  · intro hnil
    have hoctets := (List.append_eq_nil_iff.1 hnil).1
    rw [List.flatMap_eq_nil_iff] at hoctets
    obtain ⟨b, octets, hb⟩ := List.exists_cons_of_ne_nil (String.utf8EncodeChar_ne_nil (c := c))
    exact absurd (hoctets b (by rw [hb]; simp)) (by simp [escapedOctet])

/-- Controls and blanks make the last segment of a path longer. -/
theorem length_writeDirectory_lt (htext : text ≠ []) (hnone : edges ≠ [])
    (hedges : ∀ c ∈ edges, isEdge c = true) :
    (writeDirectory text).length < (writeDirectory (text ++ edges)).length := by
  obtain ⟨c, rest, rfl⟩ := List.exists_cons_of_ne_nil htext
  have hslash : '/' ∉ edges := fun h => absurd (hedges _ h) (by decide)
  have hback : '\\' ∉ edges := fun h => absurd (hedges _ h) (by decide)
  obtain ⟨init, last, hrest, hlonger⟩ := Text.splitOn_append_of_not_mem hslash (withSlashes rest)
  have hwith : withSlashes (rest ++ edges) = withSlashes rest ++ edges := by
    rw [withSlashes, List.map_append]
    exact congrArg _ (withSlashes_eq_self hback)
  -- the last segment may have been dots; with what is added it is not
  have hle := length_write_enter_le (init.foldl enter []) last
  have hedge : 0 < (escaped keptInPath edges).length :=
    List.length_pos_iff.2 (escaped_ne_nil _ hnone)
  have hescaped : escaped keptInPath (last ++ edges) =
      escaped keptInPath last ++ escaped keptInPath edges := List.flatMap_append
  simp only [writeDirectory, directory, List.cons_append, hwith, hrest, hlonger, List.foldl_append,
    List.foldl_cons, List.foldl_nil, enter_of_not_isDots (isDots_append_edges hnone hedges last),
    List.reverse_cons, write_segments_append, hescaped, List.length_append]
  refine lt_of_le_of_lt hle ?_
  simp [Path.write]
  omega

/-! ## What comes after a path -/

/-- Whether a character ends a path. -/
def endsPath (c : Char) : Bool := c = '?' || c = '#'

theorem endsPath_eq_false {c : Char} (hquery : '?' ∉ text) (hfragment : '#' ∉ text) (hc : c ∈ text) :
    endsPath c = false := by
  simp [endsPath, ne_of_mem_of_not_mem hc hquery, ne_of_mem_of_not_mem hc hfragment]

/-- A text is all path, or its path goes up to the first sign that ends it. -/
theorem cutTail_eq_or (special : Bool) (text : List Char) :
    ((∀ c ∈ text, endsPath c = false) ∧ cutTail special text = (text, none, none)) ∨
      ∃ path c rest, text = path ++ c :: rest ∧ (∀ d ∈ path, endsPath d = false) ∧
        endsPath c = true ∧ (cutTail special text).1 = path ∧
        (cutTail special text).2 ≠ (none, none) := by
  cases hfragment : Text.cutAt '#' text with
  | none =>
    have hsign := Text.cutAt_eq_none_iff.1 hfragment
    cases hquery : Text.cutAt '?' text with
    | none =>
      refine .inl ⟨fun c => endsPath_eq_false (Text.cutAt_eq_none_iff.1 hquery) hsign, ?_⟩
      simp only [cutTail, hfragment, hquery]
    | some cut =>
      obtain ⟨path, query⟩ := cut
      obtain ⟨htext, hmark⟩ := Text.cutAt_eq_some_iff.1 hquery
      have hpath : '#' ∉ path := fun h => hsign (by rw [htext]; exact List.mem_append_left _ h)
      refine .inr ⟨path, '?', query, htext, fun c => endsPath_eq_false hmark hpath, rfl, ?_, ?_⟩
      all_goals simp [cutTail, hfragment, hquery]
  | some cut =>
    obtain ⟨front, fragment⟩ := cut
    obtain ⟨htext, hsign⟩ := Text.cutAt_eq_some_iff.1 hfragment
    cases hquery : Text.cutAt '?' front with
    | none =>
      have hmark := Text.cutAt_eq_none_iff.1 hquery
      refine .inr ⟨front, '#', fragment, htext, fun c => endsPath_eq_false hmark hsign, rfl, ?_, ?_⟩
      all_goals simp [cutTail, hfragment, hquery]
    | some cut =>
      obtain ⟨path, query⟩ := cut
      obtain ⟨hfront, hmark⟩ := Text.cutAt_eq_some_iff.1 hquery
      have hpath : '#' ∉ path := fun h => hsign (by rw [hfront]; exact List.mem_append_left _ h)
      refine .inr ⟨path, '?', query ++ '#' :: fragment, by rw [htext, hfront]; simp,
        fun c => endsPath_eq_false hmark hpath, rfl, ?_, ?_⟩
      all_goals simp [cutTail, hfragment, hquery]

theorem cutTail_fst (special : Bool) (text : List Char) :
    (cutTail special text).1 = text.takeWhile (!endsPath ·) := by
  rcases cutTail_eq_or special text with ⟨hall, htail⟩ | ⟨path, c, rest, rfl, hall, hc, hfst, -⟩
  · rw [htail]
    exact (List.takeWhile_eq_self_iff.2 fun c hc => by rw [hall c hc]; rfl).symm
  · rw [hfst, Text.takeWhile_append_stop (by rw [hc]; rfl)]
    exact (List.takeWhile_eq_self_iff.2 fun c hc => by rw [hall c hc]; rfl).symm

/-- Without the signs of query and fragment, all of the text is the path. -/
theorem cutTail_of_not_endsPath (h : ∀ c ∈ text, endsPath c = false) :
    cutTail special text = (text, none, none) := by
  rcases cutTail_eq_or special text with ⟨-, htail⟩ | ⟨path, c, rest, rfl, -, hc, -⟩
  · exact htail
  · rw [h c (by simp)] at hc
    cases hc

theorem not_endsPath_of_cutTail (h : (cutTail special text).2 = (none, none)) :
    ∀ c ∈ text, endsPath c = false := by
  rcases cutTail_eq_or special text with ⟨hall, -⟩ | ⟨path, c, rest, -, -, -, -, hsnd⟩
  · exact hall
  · exact absurd h hsnd

/-- A path that has ended does not go on. -/
theorem cutTail_append_fst {c : Char} (hc : c ∈ text) (h : endsPath c = true) (more : List Char) :
    (cutTail special (text ++ more)).1 = (cutTail special text).1 := by
  obtain ⟨front, rest, rfl⟩ := List.append_of_mem hc
  have hends : (!endsPath c) = false := by rw [h]; rfl
  rw [cutTail_fst, cutTail_fst, List.append_assoc, List.cons_append, Text.takeWhile_append_stop hends,
    Text.takeWhile_append_stop hends]

end ActionBook.Url
