import ActionBook.Execution.Rendering
import ActionBook.Proofs.Action.Derived
import ActionBook.Proofs.Binding.Rendering
import Mathlib.Data.List.Forall2

/-!
# `Execution.Rendering`: rendered templates and the keys they ask for

The binding keys of a template are collected from its texts, and its texts are rendered one by one,
by two functions that know nothing of each other. `reports_rendered` says that they agree: rendering
a template fails with just those of its binding keys that have no value. `renderedTo_of_rendered`
says what comes out otherwise, field by field.
-/

namespace ActionBook

open Binding (Values render)

/-! ## The value of a key -/

theorem Param.lookup_eq_none_iff {params : List Param} {key : String} :
    lookup params key = none ↔ ∀ p ∈ params, p.key ≠ key := by
  rw [lookup, Option.map_eq_none_iff, List.find?_eq_none]
  simp

/-- The last param with a key gives its value. -/
theorem Param.lookup_eq_some_iff {params : List Param} {key value : String} :
    lookup params key = some value ↔
      ∃ before after, params = before ++ ⟨key, value⟩ :: after ∧ ∀ p ∈ after, p.key ≠ key := by
  rw [lookup, Option.map_eq_some_iff]
  constructor
  · rintro ⟨p, hfind, rfl⟩
    rw [List.find?_eq_some_iff_append] at hfind
    obtain ⟨hkey, front, back, heq, hfront⟩ := hfind
    have hkey : p.key = key := by simpa using hkey
    subst hkey
    refine ⟨back.reverse, front.reverse, ?_, ?_⟩
    · have hreverse := congrArg List.reverse heq
      simpa using hreverse
    · intro q hq
      simpa using hfront q (List.mem_reverse.1 hq)
  · rintro ⟨before, after, rfl, hafter⟩
    refine ⟨⟨key, value⟩, ?_, rfl⟩
    rw [List.find?_eq_some_iff_append]
    refine ⟨by simp, after.reverse, before.reverse, by simp, ?_⟩
    intro q hq
    simpa using hafter q (List.mem_reverse.1 hq)

/-! ## Outcomes that report together -/

namespace Reports

variable {α β : Type} {missing other : String → Prop} {x : α} {y : β}

theorem both {o : Except TextSet α} {o' : Except TextSet β} (h : Reports missing x o)
    (h' : Reports other y o') :
    Reports (fun k => missing k ∨ other k) (x, y) (bothPresent o o') := by
  cases h with
  | given h =>
    cases h' with
    | given h' => exact .given fun k => not_or.2 ⟨h k, h' k⟩
    | failed hkeys h' =>
      exact .failed (fun k => (hkeys k).trans (or_iff_right (h k)).symm) (h'.imp fun _ => .inr)
  | failed hkeys h =>
    cases h' with
    | given h' =>
      exact .failed (fun k => (hkeys k).trans (or_iff_left (h' k)).symm) (h.imp fun _ => .inl)
    | failed hkeys' h' =>
      refine .failed (fun k => ?_) (h.imp fun _ => .inl)
      rw [TextSet.mem_union, hkeys, hkeys']

theorem all {missing : α → String → Prop} {f : α → Except TextSet β} {g : α → β}
    (h : ∀ a, Reports (missing a) (g a) (f a)) (items : List α) :
    Reports (fun k => ∃ a ∈ items, missing a k) (items.map g) (allPresent f items) := by
  induction items with
  | nil => exact .given fun k => by simp
  | cons a items ih =>
    have hcons := ((h a).both ih).map fun both => both.1 :: both.2
    exact hcons.congr fun k => by simp

theorem optional {missing : α → String → Prop} {f : α → Except TextSet β} {g : α → β}
    (h : ∀ a, Reports (missing a) (g a) (f a)) (item : Option α) :
    Reports (fun k => ∃ a ∈ item, missing a k) (item.map g) (optionalPresent f item) := by
  cases item with
  | none => exact .given fun k => by simp
  | some a => exact ((h a).map some).congr fun k => by simp

end Reports

/-! ## Templates -/

/-- The property with values in the place of the bindings of its value. -/
def Property.substituted (value : String → String) (p : Property) : Property :=
  { p with value := Binding.substituted value p.value }

/-- The template with values in the place of all bindings. -/
def RequestTemplate.substituted (value : String → String) (t : RequestTemplate) :
    RequestTemplate :=
  { t with
    path := Binding.substituted value t.path
    headers := t.headers.map (Property.substituted value)
    query := t.query.map (Property.substituted value)
    body := t.body.map (Binding.substituted value) }

namespace RequestTemplate

/-- Rendering a template puts the values in, or reports its binding keys without a value. -/
theorem reports_rendered (values : Values) (t : RequestTemplate) :
    Reports (fun k => k ∈ t.bindingKeys ∧ values k = none)
      (t.substituted fun k => (values k).getD "") (t.rendered values) := by
  have hproperty (p : Property) : Reports (fun k => k ∈ Binding.keys p.value ∧ values k = none)
      (p.substituted fun k => (values k).getD "") (p.rendered values) :=
    (Binding.reports_render values p.value).map fun value => { p with value }
  have hpath := Binding.reports_render values t.path
  have hheaders := Reports.all hproperty t.headers
  have hquery := Reports.all hproperty t.query
  have hbody := Reports.optional (Binding.reports_render values) t.body
  have hall := (hpath.both (hheaders.both (hquery.both hbody))).map
    fun all => { t with path := all.1, headers := all.2.1, query := all.2.2.1, body := all.2.2.2 }
  -- a key is missing from one of the four parts just if it is a binding key without a value
  refine hall.congr fun k => ?_
  rw [mem_bindingKeys]
  grind

/-- What a template is rendered to depends on the values of its binding keys only. -/
theorem rendered_congr {values values' : Values} {t : RequestTemplate}
    (h : ∀ k ∈ t.bindingKeys, values k = values' k) : t.rendered values = t.rendered values' := by
  have htext {text : String} (htext : ∀ k ∈ Binding.keys text, k ∈ t.bindingKeys) :
      Binding.substituted (fun k => (values k).getD "") text =
        Binding.substituted (fun k => (values' k).getD "") text :=
    Binding.substituted_congr fun k hk => by rw [h k (htext k hk)]
  have hproperties {properties : List Property}
      (hmem : ∀ p ∈ properties, ∀ k ∈ Binding.keys p.value, k ∈ t.bindingKeys) :
      properties.map (Property.substituted fun k => (values k).getD "") =
        properties.map (Property.substituted fun k => (values' k).getD "") :=
    List.map_congr_left fun p hp => by
      rw [Property.substituted, Property.substituted, htext (hmem p hp)]
  have hsubstituted : t.substituted (fun k => (values k).getD "") =
      t.substituted fun k => (values' k).getD "" := by
    rw [substituted, substituted, htext fun k hk => mem_bindingKeys.2 (.inl hk),
      hproperties fun p hp k hk => mem_bindingKeys.2 (.inr (.inl ⟨p, hp, hk⟩)),
      hproperties fun p hp k hk => mem_bindingKeys.2 (.inr (.inr (.inl ⟨p, hp, hk⟩)))]
    cases hbody : t.body with
    | none => rfl
    | some b =>
      rw [Option.map_some, Option.map_some,
        htext fun k hk => mem_bindingKeys.2 (.inr (.inr (.inr ⟨b, hbody, hk⟩)))]
  have hreports := reports_rendered values t
  rw [hsubstituted] at hreports
  refine hreports.unique ((reports_rendered values' t).congr fun k => ?_)
  exact and_congr_right fun hk => by rw [h k hk]

end RequestTemplate

/-! ## Rendered field by field -/

/-- A property with the same key and its value rendered. -/
def Property.RenderedTo (values : Values) (p p' : Property) : Prop :=
  p'.key = p.key ∧ render values p.value = .ok p'.value

/-- A template whose path, header and query values and body are rendered each on its own, and that is
otherwise the same. -/
structure RequestTemplate.RenderedTo (values : Values) (t t' : RequestTemplate) : Prop where
  method : t'.method = t.method
  timeout : t'.timeout = t.timeout
  path : render values t.path = .ok t'.path
  headers : List.Forall₂ (Property.RenderedTo values) t.headers t'.headers
  query : List.Forall₂ (Property.RenderedTo values) t.query t'.query
  body : Option.Rel (fun b b' => render values b = .ok b') t.body t'.body

namespace RequestTemplate

variable {values : Values} {t t' : RequestTemplate}

theorem renderedTo_of_rendered (h : t.rendered values = .ok t') : t.RenderedTo values t' := by
  obtain ⟨hgiven, rfl⟩ := (reports_rendered values t).eq_ok_iff.1 h
  have hkeys : ∀ k ∈ t.bindingKeys, values k ≠ none := fun k hk hnone => hgiven k ⟨hk, hnone⟩
  have hproperties (properties : List Property)
      (hmem : ∀ p ∈ properties, ∀ k ∈ Binding.keys p.value, k ∈ t.bindingKeys) :
      List.Forall₂ (Property.RenderedTo values) properties
        (properties.map (Property.substituted fun k => (values k).getD "")) := by
    rw [List.forall₂_map_right_iff, List.forall₂_same]
    exact fun p hp => ⟨rfl, Binding.render_eq_ok fun k hk => hkeys k (hmem p hp k hk)⟩
  refine ⟨rfl, rfl, ?_, ?_, ?_, ?_⟩
  · exact Binding.render_eq_ok fun k hk => hkeys k (mem_bindingKeys.2 (.inl hk))
  · exact hproperties t.headers fun p hp k hk => mem_bindingKeys.2 (.inr (.inl ⟨p, hp, hk⟩))
  · exact hproperties t.query fun p hp k hk => mem_bindingKeys.2 (.inr (.inr (.inl ⟨p, hp, hk⟩)))
  · show Option.Rel _ t.body (t.body.map _)
    cases hbody : t.body with
    | none => exact .none
    | some b =>
      refine .some (Binding.render_eq_ok fun k hk => hkeys k ?_)
      exact mem_bindingKeys.2 (.inr (.inr (.inr ⟨b, hbody, hk⟩)))

end RequestTemplate

end ActionBook
