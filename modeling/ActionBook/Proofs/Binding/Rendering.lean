import ActionBook.Binding.Template
import Mathlib.Data.List.Basic

/-!
# `Binding.Rendering`: what rendering a template comes to

What needs values for keys either comes out or fails with the keys that have none: all of them, and
nothing else. `Reports` says so of an outcome, and `reports_render` says it of a rendered template,
which comes out as the text with the values put in.
-/

namespace ActionBook

/-- An outcome that is `x` if no key is missing, and otherwise the set of the missing keys. -/
inductive Reports {α : Type} (missing : String → Prop) (x : α) : Except TextSet α → Prop
  | given (h : ∀ k, ¬ missing k) : Reports missing x (.ok x)
  | failed {keys : TextSet} (hkeys : ∀ k, k ∈ keys ↔ missing k) (h : ∃ k, missing k) :
    Reports missing x (.error keys)

namespace Reports

variable {α β : Type} {missing other : String → Prop} {x y : α} {o o' : Except TextSet α}

theorem eq_ok_iff (h : Reports missing x o) : o = .ok y ↔ (∀ k, ¬ missing k) ∧ x = y := by
  cases h with
  | given h => simp [h]
  | failed hkeys h =>
    obtain ⟨k, hk⟩ := h
    simp only [reduceCtorEq, false_iff, not_and]
    exact fun h => absurd hk (h k)

theorem eq_error_iff {keys : TextSet} (h : Reports missing x o) :
    o = .error keys ↔ (∃ k, missing k) ∧ ∀ k, k ∈ keys ↔ missing k := by
  cases h with
  | given h => simp [h]
  | @failed keys' hkeys h =>
    rw [Except.error.injEq]
    constructor
    · rintro rfl
      exact ⟨h, hkeys⟩
    · rintro ⟨-, hkeys'⟩
      exact TextSet.ext fun k => (hkeys k).trans (hkeys' k).symm

/-- The missing keys and the value determine the outcome. -/
theorem unique (h : Reports missing x o) (h' : Reports missing x o') : o = o' := by
  cases h with
  | given h => exact (h'.eq_ok_iff.2 ⟨h, rfl⟩).symm
  | failed hkeys h => exact (h'.eq_error_iff.2 ⟨h, hkeys⟩).symm

/-- Only which keys are missing matters, not how that is said. -/
theorem congr (h : Reports missing x o) (hiff : ∀ k, missing k ↔ other k) :
    Reports other x o := by
  rwa [← funext fun k => propext (hiff k)]

theorem map (h : Reports missing x o) (f : α → β) : Reports missing (f x) (o.map f) := by
  cases h with
  | given h => exact .given h
  | failed hkeys h => exact .failed hkeys h

end Reports

namespace Binding

/-- The text of a segment with a value in the place of its binding. -/
def Segment.filled (value : String → String) : Segment → List Char
  | .literal text => text
  | .binding _ inner => (value (String.ofList (Text.trim inner))).toList

/-- A template with a value in the place of every binding. -/
def substituted (value : String → String) (template : String) : String :=
  String.ofList ((segments template.toList).flatMap (Segment.filled value))

theorem filterMap_value (values : Values) (segments : List Segment) :
    ((segments.map (Segment.value values)).filterMap fun
      | .error key => some key
      | .ok _ => none) =
      (segments.filterMap Segment.key?).filter fun k => (values k).isNone := by
  rw [List.filterMap_map, List.filter_filterMap]
  refine List.filterMap_congr fun s _ => ?_
  cases s with
  | literal text => rfl
  | binding triple inner =>
    simp only [Function.comp_apply, Segment.value, Segment.key?]
    cases h : values (String.ofList (Text.trim inner)) <;> simp [Option.filter, h]

theorem flatMap_value (values : Values) (segments : List Segment) :
    ((segments.map (Segment.value values)).flatMap fun
      | .ok text => text
      | .error _ => []) =
      segments.flatMap (Segment.filled fun k => (values k).getD "") := by
  rw [List.flatMap_map]
  refine List.flatMap_congr fun s _ => ?_
  cases s with
  | literal text => rfl
  | binding triple inner =>
    simp only [Segment.value, Segment.filled]
    cases h : values (String.ofList (Text.trim inner)) <;> simp

/-- Rendering puts the values in, or reports the keys without a value. -/
theorem reports_render (values : Values) (template : String) :
    Reports (fun k => k ∈ keys template ∧ values k = none)
      (substituted (fun k => (values k).getD "") template) (render values template) := by
  have hmissing := filterMap_value values (segments template.toList)
  have htext := flatMap_value values (segments template.toList)
  have hmem (k : String) : k ∈ TextSet.ofList ((keys template).filter fun k => (values k).isNone) ↔
      k ∈ keys template ∧ values k = none := by
    simp
  have hrender : render values template =
      if (TextSet.ofList ((keys template).filter fun k => (values k).isNone)).isEmpty then
        .ok (substituted (fun k => (values k).getD "") template)
      else .error (.ofList ((keys template).filter fun k => (values k).isNone)) := by
    rw [keys, substituted, ← hmissing, ← htext]
    rfl
  rw [hrender]
  split
  next hempty => exact .given fun k hk => TextSet.isEmpty_iff.1 hempty k ((hmem k).2 hk)
  next hsome =>
    refine .failed hmem ?_
    rw [TextSet.isEmpty_iff, not_forall_not] at hsome
    exact hsome.imp fun k hk => (hmem k).1 hk

/-- What a template becomes depends on the values of its keys only. -/
theorem substituted_congr {value value' : String → String} {template : String}
    (h : ∀ k ∈ keys template, value k = value' k) :
    substituted value template = substituted value' template := by
  refine congrArg String.ofList (List.flatMap_congr fun s hs => ?_)
  cases s with
  | literal text => rfl
  | binding triple inner =>
    have hkey : String.ofList (Text.trim inner) ∈ keys template :=
      List.mem_filterMap.2 ⟨.binding triple inner, hs, rfl⟩
    rw [Segment.filled, Segment.filled, h _ hkey]

/-- A template of which no key is missing is rendered to its text with the values put in. -/
theorem render_eq_ok {values : Values} {template : String}
    (h : ∀ k ∈ keys template, values k ≠ none) :
    render values template = .ok (substituted (fun k => (values k).getD "") template) :=
  (reports_render values template).eq_ok_iff.2 ⟨fun k hk => h k hk.1 hk.2, rfl⟩

end Binding

end ActionBook
