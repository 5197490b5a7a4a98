import ActionBook.Proofs.Binding.Layout

/-!
# `Binding.Scan`: reading a template with more text after it

`scan` reads a template up to its last closed binding and leaves what stands after that. More text
after a template does not change what has been read of it: only what was left is read again
(`segments_append`). What is found there next depends on whether an opening in it waits for its
closing (`find?_of_hasPair`, `find?_of_not_hasPair`).
-/

namespace ActionBook.Binding

variable {template text more inner after : List Char} {found : Found}

/-! ## What is found where more text follows -/

/-- A binding closes before what stands after it. -/
theorem Found.exists_eq_closing (f : Found) :
    ∃ opened, f.before ++ f.segment.source ++ f.after = opened ++ '}' :: '}' :: f.after := by
  obtain ⟨before, triple, inner, after⟩ := f
  cases triple with
  | false => exact ⟨before ++ '{' :: '{' :: inner, by simp [Found.segment, Segment.source]⟩
  | true => exact ⟨before ++ '{' :: '{' :: '{' :: inner ++ ['}'], by
      simp [Found.segment, Segment.source]⟩

/-- Something is found just where an opening is closed. -/
theorem find?_eq_none_iff : find? template = none ↔ ¬ HasClosed template := by
  constructor
  · exact not_hasClosed_of_find?_eq_none
  · intro hclosed
    cases hfind : find? template with
    | none => rfl
    | some found =>
      refine absurd ?_ hclosed
      rw [eq_of_find? hfind]
      obtain ⟨before, triple, inner, after⟩ := found
      cases triple with
      | false => exact ⟨before, inner, after, by simp [Found.segment, Segment.source]⟩
      | true => exact ⟨before, '{' :: inner, '}' :: after, by simp [Found.segment, Segment.source]⟩

/-- Text without a closing brace closes nothing. -/
theorem not_hasClosed_append_of_not_mem (hclosed : ¬ HasClosed text) (h : '}' ∉ more) :
    ¬ HasClosed (text ++ more) := by
  rintro ⟨before, between, after, heq⟩
  have hsplit : text ++ more = (before ++ '{' :: '{' :: between ++ ['}', '}']) ++ after := by
    rw [heq]
    simp
  rcases List.append_eq_append_iff.1 hsplit with ⟨rest, hrest, hmore⟩ | ⟨rest, htext, -⟩
  · -- the closing would end in the text without closing braces, unless that part of it is empty
    rcases List.eq_nil_or_concat rest with rfl | ⟨rest, c, rfl⟩
    · exact hclosed ⟨before, between, [], by rw [List.append_nil] at hrest; rw [← hrest]⟩
    · have hlast := congrArg List.getLast? hrest
      simp only [List.getLast?_append, List.getLast?_cons_cons, List.getLast?_singleton,
        List.concat_eq_append, Option.some_or, Option.some.injEq] at hlast
      refine h ?_
      rw [hmore, hlast]
      simp
  · exact hclosed ⟨before, between, rest, by rw [htext]; simp⟩

theorem Found.widened_eq_self (h : found.inner.head? ≠ some '{' ∨ found.after.head? ≠ some '}') :
    found.widened = found := by
  unfold Found.widened
  split
  next inner after hinner hafter => simp [hinner, hafter] at h
  next => rfl

/-- The same binding with more text after it. -/
def Found.followedBy (f : Found) (more : List Char) : Found := { f with after := f.after ++ more }

/-- More text after a binding does not give it a third brace, unless that text begins with one and
the binding waits for it. -/
theorem Found.widened_followedBy (f : Found)
    (h : f.widened.inner.head? ≠ some '{' ∨ more.head? ≠ some '}') :
    (f.followedBy more).widened = f.widened.followedBy more := by
  obtain ⟨before, triple, inner, after⟩ := f
  by_cases hthird : inner.head? = some '{' ∧ after.head? = some '}'
  · obtain ⟨inner', rfl⟩ := List.head?_eq_some_iff.1 hthird.1
    obtain ⟨after', rfl⟩ := List.head?_eq_some_iff.1 hthird.2
    rfl
  · rw [not_and_or] at hthird
    have hself : (Found.mk before triple inner after).widened = ⟨before, triple, inner, after⟩ :=
      Found.widened_eq_self hthird
    rw [hself] at h
    have hmore : inner.head? ≠ some '{' ∨ (after ++ more).head? ≠ some '}' := by
      cases after with
      | nil => exact h
      | cons c after => exact hthird
    rw [hself]
    exact Found.widened_eq_self hmore

/-- What is found in a template is found in it where more text follows. -/
theorem find?_append (hfind : find? template = some found)
    (h : found.inner.head? ≠ some '{' ∨ more.head? ≠ some '}') :
    find? (template ++ more) = some (found.followedBy more) := by
  rw [find?] at hfind
  split at hfind
  · simp at hfind
  next before opened hopen =>
    split at hfind
    · simp at hfind
    next between after hclose =>
      rw [find?, cutAtPair_append hopen]
      simp only [cutAtPair_append hclose]
      split at hfind
      next hinner =>
        simp only [Option.some.injEq] at hfind
        subst hfind
        exact congrArg some (Found.widened_followedBy ⟨before, false, between, after⟩ h)
      next outer inner hinner =>
        simp only [Option.some.injEq] at hfind
        subst hfind
        exact congrArg some (Found.widened_followedBy
          ⟨before ++ '{' :: '{' :: outer, false, inner, after⟩ h)

/-- The same binding with more text before it. -/
def Found.precededBy (f : Found) (text : List Char) : Found := { f with before := text ++ f.before }

theorem Found.widened_precededBy (f : Found) (text : List Char) :
    (f.precededBy text).widened = f.widened.precededBy text := by
  unfold Found.widened Found.precededBy
  simp only
  split <;> rfl

/-- Text without an opening brace is literal before a template. -/
theorem find?_append_of_not_mem (h : '{' ∉ text) (template : List Char) :
    find? (text ++ template) = (find? template).map (Found.precededBy · text) := by
  rw [find?, find?, cutAtPair_append_of_not_mem h]
  cases cutAtPair '{' template with
  | none => rfl
  | some cut =>
    obtain ⟨before, opened⟩ := cut
    simp only [Option.map_some]
    cases cutAtPair '}' opened with
    | none => rfl
    | some cut' =>
      obtain ⟨between, after⟩ := cut'
      simp only
      cases cutAtLastPair '{' between with
      | none => exact congrArg some (Found.widened_precededBy ⟨before, false, between, after⟩ text)
      | some cut'' =>
        obtain ⟨outer, inner⟩ := cut''
        have hwidened := Found.widened_precededBy
          ⟨before ++ '{' :: '{' :: outer, false, inner, after⟩ text
        simp only [Found.precededBy, ← List.append_assoc] at hwidened
        exact congrArg some hwidened

/-- Before a text, text without an opening brace opens nothing that could be closed. -/
theorem hasClosed_append_iff (h : '{' ∉ text) : HasClosed (text ++ more) ↔ HasClosed more := by
  rw [← not_iff_not, ← find?_eq_none_iff, ← find?_eq_none_iff, find?_append_of_not_mem h,
    Option.map_eq_none_iff]

/-- Text in which an opening waits for its closing: the next binding is closed together with the last
opening before its closing, whatever stands before that. -/
theorem find?_of_hasPair (hopen : HasPair '{' text) (hclosed : ¬ HasClosed text)
    (hopening : ¬ HasPair '{' ('{' :: inner)) (hclosing : ¬ HasPair '}' (inner ++ ['}']))
    (after : List Char) :
    find? (text ++ '{' :: '{' :: inner ++ '}' :: '}' :: after) =
      some ⟨text, false, inner, after⟩ := by
  cases hcut : cutAtPair '{' text with
  | none => exact absurd hopen (not_hasPair_of_cutAtPair_eq_none hcut)
  | some cut =>
    obtain ⟨before, opened⟩ := cut
    have htext : text = before ++ '{' :: '{' :: opened := eq_of_cutAtPair hcut
    -- a closing after the first opening would have closed it
    have hopened : ¬ HasPair '}' opened := by
      rintro ⟨between, rest, rfl⟩
      exact hclosed ⟨before, between, rest, by rw [htext]; simp⟩
    have hbetween : ¬ HasPair '}' (opened ++ '{' :: '{' :: inner ++ ['}']) := by
      rw [List.append_assoc, List.cons_append, List.cons_append, hasPair_append_iff,
        hasPair_cons_cons_iff]
      simp only [List.head?_cons, Option.some.injEq, not_or]
      refine ⟨hopened, ⟨by decide, ?_⟩, by simp⟩
      cases inner with
      | nil => simp [hasPair_cons_cons_iff, not_hasPair_singleton]
      | cons c inner =>
        rw [List.cons_append, hasPair_cons_cons_iff]
        simpa using hclosing
    have hfirst : cutAtPair '{' (text ++ '{' :: '{' :: inner ++ '}' :: '}' :: after) =
        some (before, opened ++ '{' :: '{' :: inner ++ '}' :: '}' :: after) := by
      rw [List.append_assoc, cutAtPair_append hcut, List.append_assoc]
    have hhead : inner.head? ≠ some '{' := by
      intro hhead
      obtain ⟨rest, rfl⟩ := List.head?_eq_some_iff.1 hhead
      exact hopening (hasPair_cons_cons_iff.2 (.inl ⟨rfl, rfl⟩))
    rw [find?, hfirst]
    simp only [cutAtPair_eq_some hbetween, cutAtLastPair_eq_some hopening]
    rw [Found.widened_eq_self (.inl hhead), ← htext]

/-- Text without an opening: the next binding begins with the first opening after it. -/
theorem find?_of_not_hasPair (htext : ¬ HasPair '{' (text ++ ['{']))
    (hopening : ¬ HasPair '{' inner) (hclosing : ¬ HasPair '}' (inner ++ ['}']))
    (after : List Char) :
    find? (text ++ '{' :: '{' :: inner ++ '}' :: '}' :: after) =
      some (Found.mk text false inner after).widened := by
  have hfirst : cutAtPair '{' (text ++ '{' :: '{' :: inner ++ '}' :: '}' :: after) =
      some (text, inner ++ '}' :: '}' :: after) := by
    rw [List.append_assoc, List.cons_append, List.cons_append, cutAtPair_eq_some htext]
  rw [find?, hfirst]
  simp only [cutAtPair_eq_some hclosing, cutAtLastPair_eq_none hopening]

/-! ## Bindings without braces in them -/

/-- A text without braces. -/
structure Braceless (text : List Char) : Prop where
  opening : '{' ∉ text
  closing : '}' ∉ text

namespace Braceless

theorem nil : Braceless [] := ⟨List.not_mem_nil, List.not_mem_nil⟩

theorem head?_ne (h : Braceless inner) : inner.head? ≠ some '{' := fun hhead =>
  h.opening (List.mem_of_head? hhead)

theorem not_hasPair_cons (h : Braceless inner) : ¬ HasPair '{' ('{' :: inner) := by
  intro hpair
  cases inner with
  | nil => exact not_hasPair_singleton '{' hpair
  | cons c rest =>
    rcases hasPair_cons_cons_iff.1 hpair with ⟨-, rfl⟩ | hpair
    · exact h.opening (List.mem_cons_self ..)
    · exact not_hasPair_of_not_mem h.opening hpair

theorem not_hasPair_concat (h : Braceless inner) : ¬ HasPair '}' (inner ++ ['}']) := by
  rw [hasPair_concat_iff, not_or]
  exact ⟨not_hasPair_of_not_mem h.closing, fun hlast => h.closing (List.mem_of_getLast? hlast)⟩

theorem not_hasPair_cons_concat (h : Braceless inner) : ¬ HasPair '}' ('{' :: inner ++ ['}']) := by
  rw [List.cons_append, ← List.singleton_append, hasPair_append_iff]
  simp [not_hasPair_singleton, h.not_hasPair_concat]

end Braceless

/-- A text that does not end in a lone brace where no opening waits for its closing, so that the next
two braces are the last pair so far. -/
def Settled (text : List Char) : Prop := text.getLast? = some '{' → HasPair '{' text

theorem settled_of_not_mem (h : '{' ∉ text) : Settled text := fun hlast =>
  absurd (List.mem_of_getLast? hlast) h

theorem Settled.append (h : Settled text) (hmore : Settled more) : Settled (text ++ more) := by
  intro hlast
  rw [List.getLast?_append] at hlast
  rw [hasPair_append_iff]
  cases hlast' : more.getLast? with
  | none =>
    rw [hlast', Option.none_or] at hlast
    exact .inl (h hlast)
  | some c =>
    rw [hlast', Option.some_or] at hlast
    exact .inr (.inl (hmore (hlast'.trans hlast)))

theorem Settled.not_hasPair_concat (h : Settled text) (hopen : ¬ HasPair '{' text) :
    ¬ HasPair '{' (text ++ ['{']) := by
  rw [hasPair_concat_iff, not_or]
  exact ⟨hopen, fun hlast => hopen (h hlast)⟩

theorem find?_double (hinner : Braceless inner) (hclosed : ¬ HasClosed text)
    (hsettled : Settled text) (after : List Char) :
    find? (text ++ '{' :: '{' :: inner ++ '}' :: '}' :: after) =
      some ⟨text, false, inner, after⟩ := by
  by_cases hopen : HasPair '{' text
  · exact find?_of_hasPair hopen hclosed hinner.not_hasPair_cons hinner.not_hasPair_concat after
  · rw [find?_of_not_hasPair (hsettled.not_hasPair_concat hopen)
      (not_hasPair_of_not_mem hinner.opening) hinner.not_hasPair_concat,
      Found.widened_eq_self (.inl hinner.head?_ne)]

theorem find?_triple (hinner : Braceless inner) (hopen : ¬ HasPair '{' (text ++ ['{']))
    (after : List Char) :
    find? (text ++ '{' :: '{' :: '{' :: inner ++ '}' :: '}' :: '}' :: after) =
      some ⟨text, true, inner, after⟩ := by
  have hsplit : text ++ '{' :: '{' :: '{' :: inner ++ '}' :: '}' :: '}' :: after =
      text ++ '{' :: '{' :: ('{' :: inner) ++ '}' :: '}' :: '}' :: after := rfl
  rw [hsplit, find?_of_not_hasPair hopen hinner.not_hasPair_cons hinner.not_hasPair_cons_concat]
  rfl

/-! ## Reading up to the last closed binding -/

/-- The segments of a binding and the text before it. One without a key is literal. -/
def Found.segments (f : Found) : List Segment :=
  if (Text.trim f.inner).isEmpty then literals (f.before ++ f.segment.source)
  else literals f.before ++ [f.segment]

theorem Found.segments_of_trim_eq_nil (h : Text.trim found.inner = []) :
    found.segments = literals (found.before ++ found.segment.source) := by
  rw [Found.segments, if_pos (by simpa using h)]

theorem Found.segments_of_trim_ne_nil (h : Text.trim found.inner ≠ []) :
    found.segments = literals found.before ++ [found.segment] := by
  rw [Found.segments, if_neg (by simpa using h)]

/-- What a binding is filled with. One without a key stays as it is. -/
def Found.filled (value : String → String) (f : Found) : List Char :=
  if (Text.trim f.inner).isEmpty then f.segment.source
  else (value (String.ofList (Text.trim f.inner))).toList

theorem Found.filled_of_trim_eq_nil {value : String → String} (h : Text.trim found.inner = []) :
    found.filled value = found.segment.source := by
  rw [Found.filled, if_pos (by simpa using h)]

theorem Found.filled_of_trim_ne_nil {value : String → String} (h : Text.trim found.inner ≠ []) :
    found.filled value = (value (String.ofList (Text.trim found.inner))).toList := by
  rw [Found.filled, if_neg (by simpa using h)]

@[simp] theorem filterMap_key?_literals (text : List Char) :
    (literals text).filterMap Segment.key? = [] := by
  cases text <;> rfl

@[simp] theorem flatMap_filled_literals (value : String → String) (text : List Char) :
    (literals text).flatMap (Segment.filled value) = text := by
  cases text <;> simp [literals, Segment.filled]

theorem Found.filterMap_key?_segments (f : Found) :
    f.segments.filterMap Segment.key? =
      if (Text.trim f.inner).isEmpty then [] else [String.ofList (Text.trim f.inner)] := by
  unfold Found.segments
  split <;> simp [Found.segment, Segment.key?]

theorem Found.flatMap_filled_segments (value : String → String) (f : Found) :
    f.segments.flatMap (Segment.filled value) = f.before ++ f.filled value := by
  unfold Found.segments Found.filled
  split <;> simp [Found.segment, Segment.filled]

theorem segments_of_find?_eq_none (h : find? template = none) :
    segments template = literals template := by
  rw [segments]
  split
  next => rfl
  next found' hfind => simp [h] at hfind

theorem segments_of_find?_eq_some (h : find? template = some found) :
    segments template = found.segments ++ segments found.after := by
  rw [segments]
  split
  next hfind => simp [h] at hfind
  next found' hfind =>
    rw [h, Option.some.injEq] at hfind
    subst hfind
    rfl

/-- Text without an opening brace before a template goes to the literal text the template begins
with. -/
theorem exists_segments_append_of_not_mem (h : '{' ∉ text) (template : List Char) :
    ∃ first rest, segments template = literals first ++ rest ∧
      segments (text ++ template) = literals (text ++ first) ++ rest := by
  have hfind := find?_append_of_not_mem h template
  cases htemplate : find? template with
  | none =>
    rw [htemplate, Option.map_none] at hfind
    refine ⟨template, [], ?_, ?_⟩
    · rw [segments_of_find?_eq_none htemplate, List.append_nil]
    · rw [segments_of_find?_eq_none hfind, List.append_nil]
  | some found =>
    rw [htemplate, Option.map_some] at hfind
    rw [segments_of_find?_eq_some hfind, segments_of_find?_eq_some htemplate]
    by_cases hkey : Text.trim found.inner = []
    · refine ⟨found.before ++ found.segment.source, segments found.after, ?_, ?_⟩
      · rw [Found.segments_of_trim_eq_nil hkey]
      · have hkey' : Text.trim (found.precededBy text).inner = [] := hkey
        rw [Found.segments_of_trim_eq_nil hkey', ← List.append_assoc]
        rfl
    · refine ⟨found.before, found.segment :: segments found.after, ?_, ?_⟩
      · rw [Found.segments_of_trim_ne_nil hkey, List.append_assoc]
        rfl
      · have hkey' : Text.trim (found.precededBy text).inner ≠ [] := hkey
        rw [Found.segments_of_trim_ne_nil hkey', List.append_assoc]
        rfl

theorem filterMap_key?_append_of_not_mem (h : '{' ∉ text) (template : List Char) :
    (segments (text ++ template)).filterMap Segment.key? =
      (segments template).filterMap Segment.key? := by
  obtain ⟨first, rest, htemplate, happend⟩ := exists_segments_append_of_not_mem h template
  rw [htemplate, happend]
  simp

theorem flatMap_filled_append_of_not_mem (h : '{' ∉ text) (value : String → String)
    (template : List Char) :
    (segments (text ++ template)).flatMap (Segment.filled value) =
      text ++ (segments template).flatMap (Segment.filled value) := by
  obtain ⟨first, rest, htemplate, happend⟩ := exists_segments_append_of_not_mem h template
  rw [htemplate, happend]
  simp

/-- The segments of a template up to its last closed binding, and the text after that. -/
def scan (template : List Char) : List Segment × List Char :=
  match h : find? template with
  | none => ([], template)
  | some found =>
    have := length_after_lt h
    (found.segments ++ (scan found.after).1, (scan found.after).2)
termination_by template.length

theorem segments_eq_scan (template : List Char) :
    segments template = (scan template).1 ++ literals (scan template).2 := by
  fun_induction scan template with
  | case1 template h => rw [segments_of_find?_eq_none h, List.nil_append]
  | case2 template found h this ih => rw [segments_of_find?_eq_some h, ih, List.append_assoc]

/-- Reading goes on until nothing is closed any more. -/
theorem not_hasClosed_scan (template : List Char) : ¬ HasClosed (scan template).2 := by
  fun_induction scan template with
  | case1 template h => exact not_hasClosed_of_find?_eq_none h
  | case2 template found h this ih => exact ih

/-- A template with more text after it reads as the template up to its last closed binding, and then
as the rest with the text after it. -/
theorem segments_append (template : List Char) (h : more.head? ≠ some '}') :
    segments (template ++ more) = (scan template).1 ++ segments ((scan template).2 ++ more) := by
  fun_induction scan template with
  | case1 template hfind => rw [List.nil_append]
  | case2 template found hfind this ih =>
    have hafter : (found.followedBy more).after = found.after ++ more := rfl
    rw [segments_of_find?_eq_some (find?_append hfind (.inr h)), hafter, ih, List.append_assoc]
    rfl

/-! ## Openings that wait for their closing -/

/-- A text with an opening after which there is no closing. -/
def HasUnclosed (text : List Char) : Prop :=
  ∃ before rest, text = before ++ '{' :: '{' :: rest ∧ ¬ HasPair '}' rest

theorem hasUnclosed_iff_of_not_hasClosed (h : ¬ HasClosed text) :
    HasUnclosed text ↔ HasPair '{' text := by
  constructor
  · rintro ⟨before, rest, rfl, -⟩
    exact hasPair_append before rest
  · rintro ⟨before, rest, rfl⟩
    refine ⟨before, rest, by simp, ?_⟩
    rintro ⟨between, tail, rfl⟩
    exact h ⟨before, between, tail, by simp⟩

/-- An opening that waits for its closing is after every closing. -/
theorem hasUnclosed_closing_append_iff {opened : List Char} :
    HasUnclosed (opened ++ '}' :: '}' :: after) ↔ HasUnclosed after := by
  constructor
  · rintro ⟨before, rest, heq, hrest⟩
    obtain ⟨between, hafter⟩ := starts_after_pair (by decide) hrest heq.symm
    exact ⟨between, rest, hafter, hrest⟩
  · rintro ⟨before, rest, rfl, hrest⟩
    exact ⟨opened ++ '}' :: '}' :: before, rest, by simp, hrest⟩

/-- What is left of a template has the openings that wait for their closing. -/
theorem hasPair_scan_iff (template : List Char) :
    HasPair '{' (scan template).2 ↔ HasUnclosed template := by
  fun_induction scan template with
  | case1 template h =>
    rw [hasUnclosed_iff_of_not_hasClosed (not_hasClosed_of_find?_eq_none h)]
  | case2 template found h this ih =>
    obtain ⟨opened, heq⟩ := found.exists_eq_closing
    rw [ih, eq_of_find? h, heq, hasUnclosed_closing_append_iff]

/-- What is left of a template ends with an opening brace just if the template does. -/
theorem getLast?_scan_iff (template : List Char) :
    (scan template).2.getLast? = some '{' ↔ template.getLast? = some '{' := by
  fun_induction scan template with
  | case1 template h => rfl
  | case2 template found h this ih =>
    obtain ⟨opened, heq⟩ := found.exists_eq_closing
    rw [ih, eq_of_find? h, heq]
    cases hafter : found.after with
    | nil => simp
    | cons c rest => simp [List.getLast?_append]

end ActionBook.Binding
