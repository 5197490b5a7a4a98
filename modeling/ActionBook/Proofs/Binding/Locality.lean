import ActionBook.Proofs.Binding.Scan

/-!
# `Binding.Locality`: a binding among other text

What a binding is does not depend on the text around it. A text without braces between double braces
is read as a binding with whatever is before it and after it read as it would be alone
(`segments_binding`), and so it is rendered (`binding_is_local`).

A run of opening braces has more than one pair in it. Which of them counts is decided by what comes
before: as long as an opening waits for its closing it is the last pair, otherwise the first. So a
third brace on both sides belongs to the binding only where no opening waits
(`triple_braces_bind_like_double`), and a lone brace before a binding is taken into its key only there
(`innermost_opening_binds`).
-/

namespace ActionBook.Binding

/-- A text to stand between the braces of a binding: it is not blank, and there are no braces in it. -/
structure KeyText (inner : List Char) : Prop extends Braceless inner where
  not_blank : ∃ c ∈ inner, ¬ Text.isBlank c

namespace KeyText

variable {inner : List Char}

theorem trim_ne_nil (h : KeyText inner) : Text.trim inner ≠ [] := by
  obtain ⟨c, hc, hblank⟩ := h.not_blank
  intro hnil
  exact hblank (Text.trim_eq_nil_iff.1 hnil c hc)

theorem trimmed_ne {inner : String} (h : KeyText inner.toList) :
    Text.trimmed inner ≠ Text.trimmed ("\x7b" ++ inner) := by
  intro heq
  have htrim : Text.trim inner.toList = Text.trim ('{' :: inner.toList) := by
    simpa [Text.trimmed, String.toList_append] using congrArg String.toList heq
  -- the brace is not blank, so trimming leaves it
  have hmem : '{' ∈ Text.leading ('{' :: inner.toList) ++ Text.trim ('{' :: inner.toList) ++
      Text.trailing ('{' :: inner.toList) := by
    rw [Text.leading_append_trim_append_trailing]
    exact List.mem_cons_self ..
  rw [List.mem_append, List.mem_append, ← htrim] at hmem
  rcases hmem with (hmem | hmem) | hmem
  · exact absurd (Text.isBlank_of_mem_leading hmem) (by decide)
  · exact h.opening (Text.mem_of_mem_trim hmem)
  · exact absurd (Text.isBlank_of_mem_trailing hmem) (by decide)

end KeyText

variable {before inner after : List Char}

/-! ## Segments -/

theorem settled_scan (h : before.getLast? ≠ some '{' ∨ HasUnclosed before) :
    Settled (scan before).2 := by
  intro hlast
  rw [getLast?_scan_iff] at hlast
  rw [hasPair_scan_iff]
  exact h.resolve_left fun hne => hne hlast

/-- The template reads as the text before the binding, the binding, and the text after it. Before it
there may be a lone brace if an opening waits for its closing. -/
theorem segments_binding (hinner : KeyText inner)
    (hbefore : before.getLast? ≠ some '{' ∨ HasUnclosed before) (after : List Char) :
    segments (before ++ '{' :: '{' :: inner ++ '}' :: '}' :: after) =
      segments before ++ .binding false inner :: segments after := by
  have hfind :=
    find?_double hinner.toBraceless (not_hasClosed_scan before) (settled_scan hbefore) after
  rw [List.append_assoc, segments_append before (by simp), ← List.append_assoc,
    segments_of_find?_eq_some hfind, Found.segments_of_trim_ne_nil hinner.trim_ne_nil,
    segments_eq_scan before]
  simp [Found.segment]

/-- A third brace on both sides belongs to the binding if no opening before it waits for its
closing. -/
theorem segments_triple (hinner : KeyText inner) (hlast : before.getLast? ≠ some '{')
    (hopen : ¬ HasUnclosed before) (after : List Char) :
    segments (before ++ '{' :: '{' :: '{' :: inner ++ '}' :: '}' :: '}' :: after) =
      segments before ++ .binding true inner :: segments after := by
  rw [← hasPair_scan_iff] at hopen
  have hfind := find?_triple hinner.toBraceless
    ((settled_scan (.inl hlast)).not_hasPair_concat hopen) after
  rw [List.append_assoc, segments_append before (by simp), ← List.append_assoc,
    segments_of_find?_eq_some hfind, Found.segments_of_trim_ne_nil hinner.trim_ne_nil,
    segments_eq_scan before]
  simp [Found.segment]

/-- The keys around a lone brace: it is the first character of the key of the binding it stands before,
if no opening waits for its closing. -/
theorem filterMap_key?_lone_brace (hinner : KeyText inner) (hlast : before.getLast? = some '{')
    (hopen : ¬ HasUnclosed before) (hafter : after.head? ≠ some '}') :
    (segments (before ++ '{' :: '{' :: inner ++ '}' :: '}' :: after)).filterMap Segment.key? =
      (segments before).filterMap Segment.key? ++ String.ofList (Text.trim ('{' :: inner)) ::
        (segments after).filterMap Segment.key? := by
  rw [← hasPair_scan_iff] at hopen
  rw [← getLast?_scan_iff] at hlast
  obtain ⟨left, hleft⟩ := List.getLast?_eq_some_iff.1 hlast
  rw [hleft] at hopen
  -- the brace and the one after it are the first pair of what is left to read
  have hfind : find? ((scan before).2 ++ '{' :: '{' :: inner ++ '}' :: '}' :: after) =
      some ⟨left, false, '{' :: inner, after⟩ := by
    have hsplit : (scan before).2 ++ '{' :: '{' :: inner ++ '}' :: '}' :: after =
        left ++ '{' :: '{' :: ('{' :: inner) ++ '}' :: '}' :: after := by
      rw [hleft]
      simp
    rw [hsplit, find?_of_not_hasPair hopen hinner.not_hasPair_cons hinner.not_hasPair_cons_concat,
      Found.widened_eq_self (.inr hafter)]
  have hkey : Text.trim ('{' :: inner) ≠ [] := by
    intro hnil
    have hblank := Text.trim_eq_nil_iff.1 hnil '{' (List.mem_cons_self ..)
    revert hblank
    decide
  rw [List.append_assoc, segments_append before (by simp), ← List.append_assoc,
    segments_of_find?_eq_some hfind, Found.segments_of_trim_ne_nil hkey, segments_eq_scan before]
  simp [Found.segment, Segment.key?]

/-! ## A brace more on each side -/

theorem not_hasClosed_scan_concat (template : List Char) :
    ¬ HasClosed ((scan template).2 ++ ['{']) :=
  not_hasClosed_append_of_not_mem (not_hasClosed_scan template) (by decide)

/-- A brace at the end of a template is literal. -/
theorem segments_concat (template : List Char) :
    segments (template ++ ['{']) = (scan template).1 ++ literals ((scan template).2 ++ ['{']) := by
  rw [segments_append template (by simp),
    segments_of_find?_eq_none (find?_eq_none_iff.2 (not_hasClosed_scan_concat template))]

theorem filterMap_key?_concat (template : List Char) :
    (segments (template ++ ['{'])).filterMap Segment.key? =
      (segments template).filterMap Segment.key? := by
  rw [segments_concat, segments_eq_scan template]
  simp

theorem flatMap_filled_concat (value : String → String) (template : List Char) :
    (segments (template ++ ['{'])).flatMap (Segment.filled value) =
      (segments template).flatMap (Segment.filled value) ++ ['{'] := by
  rw [segments_concat, segments_eq_scan template]
  simp

theorem HasUnclosed.concat (h : HasUnclosed before) : HasUnclosed (before ++ ['{']) := by
  obtain ⟨left, rest, rfl, hrest⟩ := h
  refine ⟨left, rest ++ ['{'], by simp, ?_⟩
  rw [hasPair_append_iff]
  simp [hrest, not_hasPair_singleton]

/-- After an opening that waits for its closing, a third brace on each side is literal. -/
theorem segments_triple_of_hasUnclosed (hinner : KeyText inner) (hopen : HasUnclosed before)
    (after : List Char) :
    segments (before ++ '{' :: '{' :: '{' :: inner ++ '}' :: '}' :: '}' :: after) =
      segments (before ++ ['{']) ++ .binding false inner :: segments ('}' :: after) := by
  rw [← segments_binding hinner (.inr hopen.concat)]
  simp

/-! ## Templates -/

section Templates

variable {before inner after : String} {value : String → String}

/-- A text between double braces. -/
def inBraces (inner : String) : String := "\x7b\x7b" ++ inner ++ "\x7d\x7d"

/-- A text between triple braces. -/
def inTripleBraces (inner : String) : String := "\x7b\x7b\x7b" ++ inner ++ "\x7d\x7d\x7d"

theorem toList_inBraces (before inner after : String) :
    (before ++ inBraces inner ++ after).toList =
      before.toList ++ '{' :: '{' :: inner.toList ++ '}' :: '}' :: after.toList := by
  simp [inBraces]

theorem toList_inTripleBraces (before inner after : String) :
    (before ++ inTripleBraces inner ++ after).toList =
      before.toList ++ '{' :: '{' :: '{' :: inner.toList ++ '}' :: '}' :: '}' :: after.toList := by
  simp [inTripleBraces]

/-- The keys around a binding are those before it, its own, and those after it. -/
theorem keys_binding (hinner : KeyText inner.toList)
    (hbefore : before.toList.getLast? ≠ some '{' ∨ HasUnclosed before.toList) (after : String) :
    keys (before ++ inBraces inner ++ after) =
      keys before ++ Text.trimmed inner :: keys after := by
  rw [keys, toList_inBraces, segments_binding hinner hbefore]
  simp [keys, Segment.key?, Text.trimmed]

theorem keys_lone_brace (hinner : KeyText inner.toList)
    (hbefore : ¬ (before.toList.getLast? ≠ some '{' ∨ HasUnclosed before.toList))
    (hafter : after.toList.head? ≠ some '}') :
    keys (before ++ inBraces inner ++ after) =
      keys before ++ Text.trimmed ("\x7b" ++ inner) :: keys after := by
  rw [not_or, not_not] at hbefore
  rw [keys, toList_inBraces, filterMap_key?_lone_brace hinner hbefore.1 hbefore.2 hafter]
  simp [keys, Text.trimmed, String.toList_append]

theorem substituted_binding (hinner : KeyText inner.toList)
    (hbefore : before.toList.getLast? ≠ some '{' ∨ HasUnclosed before.toList) (after : String) :
    substituted value (before ++ inBraces inner ++ after) =
      substituted value before ++ value (Text.trimmed inner) ++ substituted value after := by
  rw [substituted, toList_inBraces, segments_binding hinner hbefore]
  simp [substituted, Segment.filled, Text.trimmed, String.ofList_append, String.append_assoc]

theorem keys_triple (hinner : KeyText inner.toList) (hlast : before.toList.getLast? ≠ some '{')
    (after : String) :
    keys (before ++ inTripleBraces inner ++ after) =
      keys before ++ Text.trimmed inner :: keys after := by
  rw [keys, toList_inTripleBraces]
  by_cases hopen : HasUnclosed before.toList
  · have hbrace : '}' :: after.toList = ['}'] ++ after.toList := rfl
    rw [segments_triple_of_hasUnclosed hinner hopen, List.filterMap_append, filterMap_key?_concat,
      List.filterMap_cons, hbrace, filterMap_key?_append_of_not_mem (by decide)]
    rfl
  · rw [segments_triple hinner hlast hopen]
    simp [keys, Segment.key?, Text.trimmed]

theorem substituted_triple (hinner : KeyText inner.toList)
    (hlast : before.toList.getLast? ≠ some '{') (hopen : ¬ HasUnclosed before.toList)
    (after : String) :
    substituted value (before ++ inTripleBraces inner ++ after) =
      substituted value before ++ value (Text.trimmed inner) ++ substituted value after := by
  rw [substituted, toList_inTripleBraces, segments_triple hinner hlast hopen]
  simp [substituted, Segment.filled, Text.trimmed, String.ofList_append, String.append_assoc]

theorem substituted_triple_of_hasUnclosed (hinner : KeyText inner.toList)
    (hopen : HasUnclosed before.toList) (after : String) :
    substituted value (before ++ inTripleBraces inner ++ after) =
      substituted value before ++ "\x7b" ++ value (Text.trimmed inner) ++ "\x7d" ++
        substituted value after := by
  have hbrace : '}' :: after.toList = ['}'] ++ after.toList := rfl
  rw [substituted, toList_inTripleBraces, segments_triple_of_hasUnclosed hinner hopen,
    List.flatMap_append, flatMap_filled_concat, List.flatMap_cons, hbrace,
    flatMap_filled_append_of_not_mem (by decide)]
  simp [substituted, Segment.filled, Text.trimmed, String.ofList_append, String.append_assoc]

/-- A template is rendered as another one with the same keys that becomes the same text. -/
theorem render_eq_render {template template' : String} (values : Values)
    (hkeys : keys template' = keys template)
    (htext : ∀ value, substituted value template' = substituted value template) :
    render values template' = render values template := by
  refine (reports_render values template').unique ?_
  rw [htext, hkeys]
  exact reports_render values template

/-- A text between double braces, with no brace before them, is a binding of its own. Its key stands
between the keys of the text before it and of the text after it, and its value between what these two
are rendered to. -/
theorem binding_is_local (hinner : KeyText inner.toList)
    (hbefore : before.toList.getLast? ≠ some '{') (after : String) :
    keys (before ++ inBraces inner ++ after) =
        keys before ++ [Text.trimmed inner] ++ keys after ∧
      ∀ values : Values,
        (∀ k ∈ keys before ++ [Text.trimmed inner] ++ keys after, values k ≠ none) →
        ∃ left value right, render values before = .ok left ∧
          values (Text.trimmed inner) = some value ∧ render values after = .ok right ∧
          render values (before ++ inBraces inner ++ after) = .ok (left ++ value ++ right) := by
  have hkeys := keys_binding hinner (.inl hbefore) after
  rw [hkeys, List.append_assoc]
  refine ⟨rfl, fun values hvalues => ?_⟩
  simp only [List.singleton_append] at hvalues
  obtain ⟨value, hvalue⟩ :=
    Option.ne_none_iff_exists'.1 (hvalues _ (List.mem_append_right _ (List.mem_cons_self ..)))
  have hleft : ∀ k ∈ keys before, values k ≠ none := fun k hk =>
    hvalues k (List.mem_append_left _ hk)
  have hright : ∀ k ∈ keys after, values k ≠ none := fun k hk =>
    hvalues k (List.mem_append_right _ (List.mem_cons_of_mem _ hk))
  refine ⟨_, value, _, render_eq_ok hleft, hvalue, render_eq_ok hright, ?_⟩
  rw [render_eq_ok (hkeys ▸ hvalues), substituted_binding hinner (.inl hbefore), hvalue]
  rfl

/-- A binding after an opening that waits for its closing and before a lone brace. -/
theorem binding_is_local_nested :
    KeyText " b ".toList ∧ "x\x7d\x7b\x7b a ".toList.getLast? ≠ some '{' ∧
      keys ("x\x7d\x7b\x7b a " ++ inBraces " b " ++ "\x7d") = ["b"] ∧
      ∃ left value right,
        render (fun _ => some "1") "x\x7d\x7b\x7b a " = .ok left ∧ some "1" = some value ∧
        render (fun _ => some "1") "\x7d" = .ok right ∧
        render (fun _ => some "1") ("x\x7d\x7b\x7b a " ++ inBraces " b " ++ "\x7d") =
          .ok (left ++ value ++ right) := by
  have hinner : KeyText " b ".toList := ⟨⟨by decide, by decide⟩, 'b', by decide⟩
  have hlast : "x\x7d\x7b\x7b a ".toList.getLast? ≠ some '{' := by decide
  have hlocal := binding_is_local hinner hlast "\x7d"
  exact ⟨hinner, hlast, by decide +kernel,
    hlocal.2 (fun _ => some "1") fun _ _ => Option.some_ne_none _⟩

/-- Triple braces make the same binding as double braces: there are the same keys, and the same keys
are missing. The template is rendered to the same text unless an opening before the braces waits for
its closing; after such an opening, one brace on each side is literal. -/
theorem triple_braces_bind_like_double (hinner : KeyText inner.toList)
    (hbefore : before.toList.getLast? ≠ some '{') (after : String) :
    keys (before ++ inTripleBraces inner ++ after) = keys (before ++ inBraces inner ++ after) ∧
      ∀ values : Values,
        (∀ missing, render values (before ++ inTripleBraces inner ++ after) = .error missing ↔
          render values (before ++ inBraces inner ++ after) = .error missing) ∧
        (¬ HasUnclosed before.toList →
          render values (before ++ inTripleBraces inner ++ after) =
            render values (before ++ inBraces inner ++ after)) ∧
        (HasUnclosed before.toList → ∀ left value right, render values before = .ok left →
          values (Text.trimmed inner) = some value → render values after = .ok right →
          render values (before ++ inBraces inner ++ after) = .ok (left ++ value ++ right) ∧
          render values (before ++ inTripleBraces inner ++ after) =
            .ok (left ++ "\x7b" ++ value ++ "\x7d" ++ right)) := by
  have hkeys := keys_binding hinner (.inl hbefore) after
  have hkeys' := keys_triple hinner hbefore after
  refine ⟨hkeys'.trans hkeys.symm, fun values => ⟨fun missing => ?_, fun hopen => ?_, ?_⟩⟩
  · rw [(reports_render values _).eq_error_iff, (reports_render values _).eq_error_iff, hkeys, hkeys']
  · refine render_eq_render values (hkeys'.trans hkeys.symm) fun value => ?_
    rw [substituted_triple hinner hbefore hopen, substituted_binding hinner (.inl hbefore)]
  · intro hopen left value right hleft hvalue hright
    obtain ⟨hbound, rfl⟩ := (reports_render values before).eq_ok_iff.1 hleft
    obtain ⟨hbound', rfl⟩ := (reports_render values after).eq_ok_iff.1 hright
    have hgiven :
        ∀ k, ¬ (k ∈ keys before ++ Text.trimmed inner :: keys after ∧ values k = none) := by
      rintro k ⟨hk, hnone⟩
      rcases List.mem_append.1 hk with hk | hk
      · exact hbound k ⟨hk, hnone⟩
      · rcases List.mem_cons.1 hk with rfl | hk
        · simp [hvalue] at hnone
        · exact hbound' k ⟨hk, hnone⟩
    constructor
    · rw [(reports_render values _).eq_ok_iff, hkeys, substituted_binding hinner (.inl hbefore),
        hvalue]
      exact ⟨hgiven, rfl⟩
    · rw [(reports_render values _).eq_ok_iff, hkeys',
        substituted_triple_of_hasUnclosed hinner hopen, hvalue]
      exact ⟨hgiven, rfl⟩

/-- Triple braces after a closed binding and before a lone brace. -/
theorem triple_braces_bind_like_double_closed :
    KeyText " b ".toList ∧ "[\x7b\x7ba\x7d\x7d".toList.getLast? ≠ some '{' ∧
      ¬ HasUnclosed "[\x7b\x7ba\x7d\x7d".toList ∧
      keys ("[\x7b\x7ba\x7d\x7d" ++ inTripleBraces " b " ++ "\x7d]") =
        keys ("[\x7b\x7ba\x7d\x7d" ++ inBraces " b " ++ "\x7d]") ∧
      render (fun _ => some "1") ("[\x7b\x7ba\x7d\x7d" ++ inTripleBraces " b " ++ "\x7d]") =
        render (fun _ => some "1") ("[\x7b\x7ba\x7d\x7d" ++ inBraces " b " ++ "\x7d]") := by
  have hinner : KeyText " b ".toList := ⟨⟨by decide, by decide⟩, 'b', by decide⟩
  have hlast : "[\x7b\x7ba\x7d\x7d".toList.getLast? ≠ some '{' := by decide
  have hscan : (scan "[\x7b\x7ba\x7d\x7d".toList).2 = [] := by decide +kernel
  have hopen : ¬ HasUnclosed "[\x7b\x7ba\x7d\x7d".toList := by
    rw [← hasPair_scan_iff, hscan]
    exact not_hasPair_of_not_mem (by decide)
  have htriple := triple_braces_bind_like_double hinner hlast "\x7d]"
  exact ⟨hinner, hlast, hopen, htriple.1, (htriple.2 fun _ => some "1").2.1 hopen⟩

/-- After an opening that waits for its closing, triple braces leave a brace on each side of the
value. -/
theorem triple_braces_leave_braces :
    KeyText "b".toList ∧ "\x7b\x7b a ".toList.getLast? ≠ some '{' ∧
      render (fun _ => some "1") ("\x7b\x7b a " ++ inBraces "b" ++ "") = .ok "\x7b\x7b a 1" ∧
      render (fun _ => some "1") ("\x7b\x7b a " ++ inTripleBraces "b" ++ "") =
        .ok "\x7b\x7b a \x7b1\x7d" := by
  have hinner : KeyText "b".toList := ⟨⟨by decide, by decide⟩, 'b', by decide⟩
  exact ⟨hinner, by decide, by decide +kernel, by decide +kernel⟩

/-- The key between the innermost braces is a key of the template, unless the text before them ends
with a brace and no opening in it waits for its closing. Such a brace is taken into the key. -/
theorem innermost_opening_binds (hinner : KeyText inner.toList)
    (hafter : after.toList.head? ≠ some '}') :
    (Text.trimmed inner ∈ keys (before ++ inBraces inner ++ after) ↔
      (before.toList.getLast? ≠ some '{' ∨ HasUnclosed before.toList) ∨
        Text.trimmed inner ∈ keys before ∨ Text.trimmed inner ∈ keys after) ∧
      (before.toList.getLast? = some '{' → ¬ HasUnclosed before.toList →
        keys (before ++ inBraces inner ++ after) =
          keys before ++ [Text.trimmed ("\x7b" ++ inner)] ++ keys after) := by
  constructor
  · by_cases hbefore : before.toList.getLast? ≠ some '{' ∨ HasUnclosed before.toList
    · simp [keys_binding hinner hbefore, hbefore]
    · have hkeys := keys_lone_brace hinner hbefore hafter
      rw [hkeys]
      simp [hbefore, hinner.trimmed_ne]
  · intro hlast hopen
    rw [keys_lone_brace hinner (by simp [hlast, hopen]) hafter]
    simp

/-- A brace before a binding, after an opening that waits for its closing. -/
theorem innermost_opening_binds_nested :
    KeyText "k".toList ∧ "".toList.head? ≠ some '}' ∧
      Text.trimmed "k" ∈ keys ("\x7b\x7b \x7b" ++ inBraces "k" ++ "") := by
  have hinner : KeyText "k".toList := ⟨⟨by decide, by decide⟩, 'k', by decide⟩
  have hafter : "".toList.head? ≠ some '}' := by decide
  have hopen : HasUnclosed "\x7b\x7b \x7b".toList :=
    ⟨[], [' ', '{'], rfl, not_hasPair_of_not_mem (by decide)⟩
  exact ⟨hinner, hafter, (innermost_opening_binds hinner hafter).1.2 (.inl (.inr hopen))⟩

/-- A lone brace before a binding is read as part of its key. -/
theorem lone_brace_in_key :
    KeyText "key".toList ∧ ": 1\x7d".toList.head? ≠ some '}' ∧
      keys ("\x7b" ++ inBraces "key" ++ ": 1\x7d") = ["\x7bkey"] ∧
      Text.trimmed "key" ∉ keys ("\x7b" ++ inBraces "key" ++ ": 1\x7d") := by
  have hinner : KeyText "key".toList := ⟨⟨by decide, by decide⟩, 'k', by decide⟩
  exact ⟨hinner, by decide, by decide +kernel, by decide +kernel⟩

end Templates

end ActionBook.Binding
