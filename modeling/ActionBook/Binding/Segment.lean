import ActionBook.Text.Blank

/-!
# `Binding.Segment`: bindings in a template

A binding is the text between two opening and the next two closing braces; its key is that text
without the blank characters around it. Text without a key, an opening without a closing and
everything else are literal. Of several openings before a closing the last one counts. One more
brace on both sides belongs to the binding.

`segments` cuts a template into literals and bindings. Nothing is lost: the sources of the segments,
one after the other, are the template (`source_segments`).
-/

namespace ActionBook.Binding

/-- A part of a template. -/
inductive Segment where
  /-- Text that stands for itself. -/
  | literal (text : List Char)
  /-- A binding: whether it has three braces on each side, and the text between them. -/
  | binding (triple : Bool) (inner : List Char)
deriving DecidableEq, Repr

namespace Segment

/-- The key of a binding. -/
def key? : Segment → Option String
  | .literal _ => none
  | .binding _ inner => some (String.ofList (Text.trim inner))

/-- The text of a segment in its template. -/
def source : Segment → List Char
  | .literal text => text
  | .binding false inner => '{' :: '{' :: inner ++ ['}', '}']
  | .binding true inner => '{' :: '{' :: '{' :: inner ++ ['}', '}', '}']

end Segment

/-! ## Pairs of braces -/

/-- The text before the first pair of `c` and the text after it. -/
def cutAtPair (c : Char) : List Char → Option (List Char × List Char)
  | a :: b :: rest =>
    if a = c ∧ b = c then some ([], rest)
    else (cutAtPair c (b :: rest)).map fun (before, after) => (a :: before, after)
  | _ => none

/-- The text before the last pair of `c` and the text after it. -/
def cutAtLastPair (c : Char) : List Char → Option (List Char × List Char)
  | a :: b :: rest =>
    match cutAtLastPair c (b :: rest) with
    | some (before, after) => some (a :: before, after)
    | none => if a = c ∧ b = c then some ([], rest) else none
  | _ => none

/-- A cut at a pair loses that pair. -/
theorem eq_of_cutAtPair {c : Char} {text before after : List Char}
    (h : cutAtPair c text = some (before, after)) : text = before ++ c :: c :: after := by
  fun_induction cutAtPair c text generalizing before with
  | case1 a b rest hpair => simp_all
  | case2 a b rest hpair ih =>
    obtain ⟨⟨x, y⟩, hcut, heq⟩ := Option.map_eq_some_iff.1 h
    simp only [Prod.mk.injEq] at heq
    obtain ⟨rfl, rfl⟩ := heq
    simp [ih hcut]
  | case3 => simp at h

/-- A cut at the last pair loses that pair. -/
theorem eq_of_cutAtLastPair {c : Char} {text before after : List Char}
    (h : cutAtLastPair c text = some (before, after)) : text = before ++ c :: c :: after := by
  fun_induction cutAtLastPair c text generalizing before with
  | case1 a b rest x y hcut ih =>
    simp only [Option.some.injEq, Prod.mk.injEq] at h
    obtain ⟨rfl, rfl⟩ := h
    simp [ih hcut]
  | case2 a b rest hcut hpair ih => simp_all
  | case3 => simp at h
  | case4 => simp at h

/-! ## One binding -/

/-- The first closed binding of a template: the text before it, its parts, and the text after it. -/
structure Found where
  before : List Char
  triple : Bool
  inner : List Char
  after : List Char

/-- The binding as a segment. -/
def Found.segment (f : Found) : Segment := .binding f.triple f.inner

/-- Takes a third brace on both sides into the binding, where there is one. -/
def Found.widened (f : Found) : Found :=
  match f.inner, f.after with
  | '{' :: inner, '}' :: after => { f with triple := true, inner, after }
  | _, _ => f

/-- The first closed binding of a template, opened by the last pair before its closing. -/
def find? (template : List Char) : Option Found :=
  match cutAtPair '{' template with
  | none => none
  | some (before, opened) =>
    match cutAtPair '}' opened with
    | none => none
    | some (between, after) =>
      match cutAtLastPair '{' between with
      | none => some (Found.mk before false between after).widened
      | some (outer, inner) =>
        some (Found.mk (before ++ '{' :: '{' :: outer) false inner after).widened

/-- The parts of a binding are those of the template. -/
theorem Found.source_widened (f : Found) (h : f.triple = false) :
    f.widened.before ++ f.widened.segment.source ++ f.widened.after =
      f.before ++ f.segment.source ++ f.after := by
  obtain ⟨before, triple, inner, after⟩ := f
  simp only at h
  subst h
  unfold Found.widened
  split
  · simp_all [Found.segment, Segment.source]
  · rfl

/-- The template is what stands before its first binding, the binding, and what stands after it. -/
theorem eq_of_find? {template : List Char} {f : Found} (h : find? template = some f) :
    template = f.before ++ f.segment.source ++ f.after := by
  rw [find?] at h
  split at h
  · simp at h
  next before opened hopen =>
    split at h
    · simp at h
    next between after hclose =>
      rw [eq_of_cutAtPair hopen, eq_of_cutAtPair hclose]
      split at h
      · simp only [Option.some.injEq] at h
        subst h
        rw [Found.source_widened _ rfl]
        simp [Found.segment, Segment.source]
      next outer inner hinner =>
        simp only [Option.some.injEq] at h
        subst h
        rw [Found.source_widened _ rfl, eq_of_cutAtLastPair hinner]
        simp [Found.segment, Segment.source]

/-- What stands after a binding is shorter than the template. -/
theorem length_after_lt {template : List Char} {f : Found} (h : find? template = some f) :
    f.after.length < template.length := by
  conv => rhs; rw [eq_of_find? h]
  cases ht : f.triple <;> simp [Found.segment, Segment.source, ht] <;> omega

/-! ## All bindings -/

/-- A literal segment, unless there is nothing in it. -/
def literals (text : List Char) : List Segment := if text.isEmpty then [] else [.literal text]

/-- The segments of a template. A binding without a key is literal, with the text before it. -/
def segments (template : List Char) : List Segment :=
  match h : find? template with
  | none => literals template
  | some found =>
    have := length_after_lt h
    (if (Text.trim found.inner).isEmpty then
      literals (found.before ++ found.segment.source)
    else literals found.before ++ [found.segment]) ++ segments found.after
termination_by template.length

@[simp] theorem flatMap_source_literals (text : List Char) :
    (literals text).flatMap Segment.source = text := by
  cases text <;> simp [literals, Segment.source]

/-- Cutting a template into segments loses nothing. -/
theorem source_segments (template : List Char) :
    (segments template).flatMap Segment.source = template := by
  fun_induction segments template with
  | case1 template h => simp
  | case2 template found h this ih =>
    rw [List.flatMap_append, ih]
    conv => rhs; rw [eq_of_find? h]
    split <;> simp

end ActionBook.Binding
