import ActionBook.Proofs.Binding.Pairs
import ActionBook.Proofs.Binding.Rendering
import ActionBook.Proofs.Text.Trimming

/-!
# `Binding.Layout`: how a template is laid out

A layout is a text with bindings in it: what stands before the first one, and for every binding its
key, the blank characters around the key and what stands after the binding. A layout is proper when
its keys are keys and nothing between the bindings reads as another binding.

Every template has a proper layout that both `keys` and `render` go by. It is read off the segments
(`Layout.ofSegments`); that nothing outside the bindings reads as a binding rests on where the pairs
of braces around a binding without a key can belong (`not_hasBinding_append`).
-/

namespace ActionBook.Binding

/-! ## Texts that read as bindings -/

/-- An opening with a closing after it. -/
def HasClosed (text : List Char) : Prop :=
  ∃ before between after, text = before ++ '{' :: '{' :: between ++ '}' :: '}' :: after

/-- A character that is neither blank nor a brace. -/
def IsPlain (c : Char) : Prop := ¬ Text.isBlank c ∧ c ≠ '{' ∧ c ≠ '}'

/-- An opening and a closing with a plain character and no other pair of braces between them. -/
def HasBinding (text : List Char) : Prop :=
  ∃ before inner after, text = before ++ '{' :: '{' :: inner ++ '}' :: '}' :: after ∧
    ¬ HasPair '{' inner ∧ ¬ HasPair '}' inner ∧ ∃ c ∈ inner, IsPlain c

theorem HasBinding.hasClosed {text : List Char} (h : HasBinding text) : HasClosed text := by
  obtain ⟨before, inner, after, heq, -⟩ := h
  exact ⟨before, inner, after, heq⟩

/-- A text without an opening has no closed opening. -/
theorem not_hasClosed_of_not_hasPair {text : List Char} (h : ¬ HasPair '{' text) :
    ¬ HasClosed text := by
  rintro ⟨before, between, after, rfl⟩
  rw [List.append_assoc] at h
  exact h (hasPair_append before _)

/-- A text whose first opening has no closing after it has no closed opening. -/
theorem not_hasClosed_append {before rest : List Char} (hbefore : ¬ HasPair '{' (before ++ ['{']))
    (hrest : ¬ HasPair '}' rest) : ¬ HasClosed (before ++ '{' :: '{' :: rest) := by
  rintro ⟨other, between, after, heq⟩
  rw [List.append_assoc] at heq
  have hsuffix : between ++ '}' :: '}' :: after <:+ rest :=
    isSuffix_after_first_pair hbefore heq.symm
  exact hrest ((hasPair_append between after).mono hsuffix.isInfix)

/-- Text around braces that enclose no plain character reads as a binding only where the text before
them or the text after them does. A binding that reached over the braces would have a plain character
on one side, and the pair of braces on that side between its own. -/
theorem not_hasBinding_append {before middle after : List Char} (hbefore : ¬ HasBinding before)
    (hmiddle : ∀ c ∈ middle, ¬ IsPlain c) (hafter : ¬ HasBinding after) :
    ¬ HasBinding (before ++ ('{' :: '{' :: middle ++ ['}', '}']) ++ after) := by
  rintro ⟨head, inner, tail, heq, hopening, hclosing, c, hc, hplain⟩
  obtain ⟨left, right, rfl⟩ := List.append_of_mem hc
  have houtside : c ∉ '{' :: '{' :: middle ++ ['}', '}'] := by
    simp only [List.cons_append, List.mem_cons, List.mem_append, List.not_mem_nil, or_false]
    rintro (h | h | h | h | h)
    · exact hplain.2.1 h
    · exact hplain.2.1 h
    · exact hmiddle c h hplain
    · exact hplain.2.2 h
    · exact hplain.2.2 h
  have hsplit : (head ++ '{' :: '{' :: left) ++ c :: (right ++ '}' :: '}' :: tail) =
      before ++ ('{' :: '{' :: middle ++ ['}', '}']) ++ after := by
    rw [heq]
    simp
  have hright : ¬ HasPair '{' right := fun h =>
    hopening (h.mono ((List.suffix_cons c right).trans (List.suffix_append left _)).isInfix)
  have hleft : ¬ HasPair '}' left := fun h =>
    hclosing (h.mono (List.prefix_append left _).isInfix)
  rcases before_or_after_of_not_mem hsplit houtside with ⟨rest, hin, hout⟩ | ⟨rest, hin, hout⟩
  · -- the plain character is before the braces, and so is the closing that follows it
    have hopens : right ++ '}' :: '}' :: tail =
        rest ++ '{' :: '{' :: (middle ++ ['}', '}'] ++ after) := by
      rw [hout]
      simp
    obtain ⟨more, hmore⟩ := ends_before_pair (by decide) hright hopens
    refine hbefore ⟨head, left ++ c :: right, more, ?_, hopening, hclosing, c, hc, hplain⟩
    rw [hin, hmore]
    simp
  · -- it is after the braces, and so is the opening before it
    have hcloses : head ++ '{' :: '{' :: left =
        (before ++ '{' :: '{' :: middle) ++ '}' :: '}' :: rest := by
      rw [hout]
      simp
    obtain ⟨more, hmore⟩ := starts_after_pair (by decide) hleft hcloses
    refine hafter ⟨more, left ++ c :: right, tail, ?_, hopening, hclosing, c, hc, hplain⟩
    rw [hin, hmore]
    simp

/-! ## What is found in a template -/

/-- A binding opened by the last opening before the first closing after any opening. -/
structure Found.Innermost (f : Found) : Prop where
  before : ¬ HasClosed f.before
  opening : ¬ HasPair '{' f.inner
  closing : ¬ HasPair '}' f.inner

theorem Found.Innermost.widened {f : Found} (h : f.Innermost) : f.widened.Innermost := by
  unfold Found.widened
  split
  next inner after hinner hafter =>
    have hinfix : inner <:+: f.inner := hinner ▸ (List.suffix_cons '{' inner).isInfix
    exact ⟨h.before, fun h' => h.opening (h'.mono hinfix), fun h' => h.closing (h'.mono hinfix)⟩
  next => exact h

/-- What is found is innermost. -/
theorem innermost_of_find? {template : List Char} {f : Found} (h : find? template = some f) :
    f.Innermost := by
  rw [find?] at h
  split at h
  · simp at h
  next before opened hopen =>
    have hbefore : ¬ HasPair '{' (before ++ ['{']) := not_hasPair_of_cutAtPair hopen
    split at h
    · simp at h
    next between after hclose =>
      have hbetween : ¬ HasPair '}' between := fun h' =>
        not_hasPair_of_cutAtPair hclose (h'.mono (List.prefix_append between _).isInfix)
      split at h
      next hinner =>
        simp only [Option.some.injEq] at h
        subst h
        refine Found.Innermost.widened ⟨?_, ?_, hbetween⟩
        · refine not_hasClosed_of_not_hasPair fun h' => ?_
          exact hbefore (h'.mono (List.prefix_append before _).isInfix)
        · exact not_hasPair_of_cutAtLastPair_eq_none hinner
      next outer inner hinner =>
        simp only [Option.some.injEq] at h
        subst h
        have hsplit := eq_of_cutAtLastPair hinner
        have houter : outer <:+: between := hsplit ▸ (List.prefix_append outer _).isInfix
        have hpart : inner <:+: between := by
          rw [hsplit]
          exact ((List.suffix_append ['{', '{'] inner).trans (List.suffix_append outer _)).isInfix
        refine Found.Innermost.widened ⟨?_, ?_, fun h' => hbetween (h'.mono hpart)⟩
        · exact not_hasClosed_append hbefore fun h' => hbetween (h'.mono houter)
        · refine fun h' => not_hasPair_of_cutAtLastPair hinner (h'.mono ?_)
          exact (List.suffix_cons '{' inner).isInfix

/-- Where nothing is found, no opening is closed. -/
theorem not_hasClosed_of_find?_eq_none {template : List Char} (h : find? template = none) :
    ¬ HasClosed template := by
  rw [find?] at h
  split at h
  next hopen => exact not_hasClosed_of_not_hasPair (not_hasPair_of_cutAtPair_eq_none hopen)
  next before opened hopen =>
    split at h
    next hclose =>
      rw [eq_of_cutAtPair hopen]
      exact not_hasClosed_append (not_hasPair_of_cutAtPair hopen)
        (not_hasPair_of_cutAtPair_eq_none hclose)
    next => split at h <;> simp at h

/-! ## Layouts -/

/-- A binding in a layout. -/
structure Occurrence where
  triple : Bool
  /-- The blank characters before the key. -/
  left : List Char
  key : List Char
  /-- The blank characters after the key. -/
  right : List Char
  /-- What stands after the binding, up to the next one. -/
  after : List Char

namespace Occurrence

/-- How the binding is written: between two or three braces on each side. -/
def source (o : Occurrence) : List Char :=
  (Segment.binding o.triple (o.left ++ o.key ++ o.right)).source

/-- The key is a key, with nothing but blank characters around it, and nothing after the binding
reads as another one. -/
structure Proper (o : Occurrence) : Prop where
  left : ∀ c ∈ o.left, Text.isBlank c
  right : ∀ c ∈ o.right, Text.isBlank c
  key_ne_nil : o.key ≠ []
  key_head : ∀ c, o.key.head? = some c → ¬ Text.isBlank c
  key_last : ∀ c, o.key.getLast? = some c → ¬ Text.isBlank c
  key_opening : ¬ HasPair '{' o.key
  key_closing : ¬ HasPair '}' o.key
  after : ¬ HasBinding o.after

/-- A binding that was found, with what stands after it. -/
def ofInner (triple : Bool) (inner after : List Char) : Occurrence where
  triple := triple
  left := Text.leading inner
  key := Text.trim inner
  right := Text.trailing inner
  after := after

theorem source_ofInner (triple : Bool) (inner after : List Char) :
    (ofInner triple inner after).source = (Segment.binding triple inner).source := by
  unfold source ofInner
  rw [Text.leading_append_trim_append_trailing]

theorem proper_ofInner {triple : Bool} {inner after : List Char} (hkey : Text.trim inner ≠ [])
    (hopening : ¬ HasPair '{' inner) (hclosing : ¬ HasPair '}' inner)
    (hafter : ¬ HasBinding after) : (ofInner triple inner after).Proper := by
  have hinfix : Text.trim inner <:+: inner :=
    ⟨Text.leading inner, Text.trailing inner, Text.leading_append_trim_append_trailing inner⟩
  exact {
    left := fun _ => Text.isBlank_of_mem_leading
    right := fun _ => Text.isBlank_of_mem_trailing
    key_ne_nil := hkey
    key_head := fun _ => Text.not_isBlank_of_head?_trim
    key_last := fun _ => Text.not_isBlank_of_getLast?_trim
    key_opening := fun h => hopening (h.mono hinfix)
    key_closing := fun h => hclosing (h.mono hinfix)
    after := hafter }

end Occurrence

/-- A text with bindings in it. -/
structure Layout where
  /-- What stands before the first binding. -/
  lead : List Char
  occurrences : List Occurrence

namespace Layout

/-- The text that is laid out. -/
def text (l : Layout) : List Char :=
  l.lead ++ l.occurrences.flatMap fun o => o.source ++ o.after

/-- The keys in order, as often as they occur. -/
def keys (l : Layout) : List String := l.occurrences.map fun o => String.ofList o.key

/-- The text with a value in the place of every binding and nothing else changed. -/
def filled (value : String → String) (l : Layout) : List Char :=
  l.lead ++ l.occurrences.flatMap fun o => (value (String.ofList o.key)).toList ++ o.after

/-- All bindings are, and nothing outside them reads as one. -/
structure Proper (l : Layout) : Prop where
  lead : ¬ HasBinding l.lead
  occurrences : ∀ o ∈ l.occurrences, o.Proper

/-- The layout with more text before it. -/
def after (text : List Char) (l : Layout) : Layout := { l with lead := text ++ l.lead }

/-- The layout that some segments make up. Literals without a binding between them are one text. -/
def ofSegments : List Segment → Layout
  | [] => ⟨[], []⟩
  | .literal text :: segments => (ofSegments segments).after text
  | .binding triple inner :: segments =>
    let rest := ofSegments segments
    ⟨[], .ofInner triple inner rest.lead :: rest.occurrences⟩

theorem ofSegments_literals_append (text : List Char) (segments : List Segment) :
    ofSegments (literals text ++ segments) = (ofSegments segments).after text := by
  cases text <;> rfl

/-! ## The layout of a template -/

theorem text_ofSegments (segments : List Segment) :
    (ofSegments segments).text = segments.flatMap Segment.source := by
  induction segments with
  | nil => rfl
  | cons s segments ih =>
    rw [List.flatMap_cons, ← ih]
    cases s with
    | literal text => simp [ofSegments, after, Layout.text, Segment.source]
    | binding triple inner =>
      simp only [ofSegments, Layout.text, List.flatMap_cons, Occurrence.source_ofInner]
      simp [Occurrence.ofInner]

theorem keys_ofSegments (segments : List Segment) :
    (ofSegments segments).keys = segments.filterMap Segment.key? := by
  induction segments with
  | nil => rfl
  | cons s segments ih =>
    cases s with
    | literal text =>
      simp only [List.filterMap_cons, Segment.key?, ← ih]
      rfl
    | binding triple inner =>
      simp only [List.filterMap_cons, Segment.key?, ← ih]
      rfl

theorem filled_ofSegments (value : String → String) (segments : List Segment) :
    (ofSegments segments).filled value = segments.flatMap (Segment.filled value) := by
  induction segments with
  | nil => rfl
  | cons s segments ih =>
    rw [List.flatMap_cons, ← ih]
    cases s with
    | literal text => simp [ofSegments, after, Layout.filled, Segment.filled]
    | binding triple inner => simp [ofSegments, Layout.filled, Segment.filled, Occurrence.ofInner]

/-- Text around a binding without a key reads as a binding only where it did. -/
theorem not_hasBinding_blank {before after : List Char} {triple : Bool} {inner : List Char}
    (hbefore : ¬ HasBinding before) (hinner : ∀ c ∈ inner, Text.isBlank c)
    (hafter : ¬ HasBinding after) :
    ¬ HasBinding (before ++ (Segment.binding triple inner).source ++ after) := by
  have hblank : ∀ c ∈ inner, ¬ IsPlain c := fun c hc hplain => hplain.1 (hinner c hc)
  cases triple with
  | false => exact not_hasBinding_append hbefore hblank hafter
  | true =>
    have hmiddle : ∀ c ∈ '{' :: inner ++ ['}'], ¬ IsPlain c := by
      intro c hc hplain
      simp only [List.cons_append, List.mem_cons, List.mem_append, List.not_mem_nil, or_false] at hc
      rcases hc with hc | hc | hc
      · exact hplain.2.1 hc
      · exact hblank c hc hplain
      · exact hplain.2.2 hc
    have h := not_hasBinding_append hbefore hmiddle hafter
    simpa [Segment.source] using h

/-- The segments of a template make up a proper layout. -/
theorem proper_ofSegments (template : List Char) : (ofSegments (segments template)).Proper := by
  fun_induction segments template with
  | case1 template h =>
    have hnot : ¬ HasBinding template := fun h' =>
      not_hasClosed_of_find?_eq_none h h'.hasClosed
    have hlayout := ofSegments_literals_append template []
    rw [List.append_nil] at hlayout
    rw [hlayout]
    exact ⟨by simpa [after, ofSegments] using hnot, by simp [after, ofSegments]⟩
  | case2 template found h this ih =>
    have hfound := innermost_of_find? h
    have hbefore : ¬ HasBinding found.before := fun h' => hfound.before h'.hasClosed
    split
    next hblank =>
      rw [List.isEmpty_iff, Text.trim_eq_nil_iff] at hblank
      rw [ofSegments_literals_append]
      exact ⟨not_hasBinding_blank hbefore hblank ih.lead, ih.occurrences⟩
    next hkey =>
      rw [List.isEmpty_iff] at hkey
      rw [List.append_assoc, ofSegments_literals_append]
      refine ⟨?_, ?_⟩
      · simpa [after, ofSegments, Found.segment] using hbefore
      · have hproper : (Occurrence.ofInner found.triple found.inner
            (ofSegments (segments found.after)).lead).Proper :=
          Occurrence.proper_ofInner hkey hfound.opening hfound.closing ih.lead
        simpa [after, ofSegments, Found.segment] using ⟨hproper, ih.occurrences⟩

/-- A filled layout depends on the values of its keys only. -/
theorem filled_congr {l : Layout} {f g : String → String} (h : ∀ k ∈ l.keys, f k = g k) :
    l.filled f = l.filled g := by
  unfold filled
  congr 1
  refine List.flatMap_congr fun o ho => ?_
  rw [h _ (List.mem_map_of_mem ho)]

/-- Without keys there is nothing to fill. -/
theorem filled_eq_text {l : Layout} (h : l.keys = []) (value : String → String) :
    l.filled value = l.text := by
  have hnone : l.occurrences = [] := List.map_eq_nil_iff.1 h
  rw [filled, text, hnone]
  rfl

end Layout

/-- A key is a text that is not empty and that trimming leaves as it is. -/
theorem trim_of_mem_keys {k template : String} (h : k ∈ keys template) :
    k.toList ≠ [] ∧ Text.trim k.toList = k.toList := by
  rw [keys, ← Layout.keys_ofSegments] at h
  obtain ⟨o, ho, rfl⟩ := List.mem_map.1 h
  have hproper := (Layout.proper_ofSegments _).occurrences o ho
  rw [String.toList_ofList]
  exact ⟨hproper.key_ne_nil, Text.trim_eq_self hproper.key_head hproper.key_last⟩

/-- A template has a proper layout that its keys and every rendering of it go by: with a value for
every key, the values take the place of the bindings as they are; otherwise all keys without a value
are missing, and nothing else. A template without keys is rendered to itself. -/
theorem exists_proper_layout (template : String) :
    ∃ l : Layout, l.Proper ∧ l.text = template.toList ∧ keys template = l.keys ∧
      (∀ values : Values,
        (∀ value : String → String, (∀ k ∈ l.keys, values k = some (value k)) →
          render values template = .ok (String.ofList (l.filled value))) ∧
        ((∃ k ∈ l.keys, values k = none) →
          ∃ missing, render values template = .error missing ∧
            ∀ k, k ∈ missing ↔ k ∈ l.keys ∧ values k = none)) ∧
      (l.keys = [] → ∀ values : Values, render values template = .ok template) := by
  have htext : (Layout.ofSegments (segments template.toList)).text = template.toList := by
    rw [Layout.text_ofSegments, source_segments]
  have hkeys : keys template = (Layout.ofSegments (segments template.toList)).keys :=
    (Layout.keys_ofSegments _).symm
  have hfilled (value : String → String) : substituted value template =
      String.ofList ((Layout.ofSegments (segments template.toList)).filled value) := by
    rw [Layout.filled_ofSegments]
    rfl
  refine ⟨_, Layout.proper_ofSegments template.toList, htext, hkeys, fun values => ⟨?_, ?_⟩, ?_⟩
  · intro value hvalue
    have hpresent : ∀ k ∈ keys template, values k ≠ none := by
      intro k hk
      rw [hvalue k (hkeys ▸ hk)]
      exact Option.some_ne_none _
    rw [render_eq_ok hpresent, hfilled, Layout.filled_congr fun k hk => by
      rw [hvalue k hk, Option.getD_some]]
  · rintro ⟨k, hk, hnone⟩
    have hmissing : ∃ k, k ∈ keys template ∧ values k = none := ⟨k, hkeys ▸ hk, hnone⟩
    cases hrender : render values template with
    | ok text => exact absurd ((reports_render values template).eq_ok_iff.1 hrender).1 (by simpa)
    | error missing =>
      have hmem := ((reports_render values template).eq_error_iff.1 hrender).2
      rw [hkeys] at hmem
      exact ⟨missing, rfl, hmem⟩
  · intro hnil values
    have hpresent : ∀ k ∈ keys template, values k ≠ none := by
      intro k hk
      rw [hkeys, hnil] at hk
      exact absurd hk List.not_mem_nil
    rw [render_eq_ok hpresent, hfilled, Layout.filled_eq_text hnil, htext, String.ofList_toList]

end ActionBook.Binding
