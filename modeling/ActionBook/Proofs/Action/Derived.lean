import ActionBook.Action.Derived

/-!
# `Action.Derived`: what the derived fields say

An action derives its binding keys, the reasons not to run it and whether it is valid from its
plugin, datasource and template. `Action.Derives` says what they should be without a word on how
they are computed, and `Action.derives_iff` that this is what computing them anew gives.
-/

namespace ActionBook

/-- The binding keys of a template are those of its path, its header and query values and its body. -/
theorem RequestTemplate.mem_bindingKeys {t : RequestTemplate} {k : String} :
    k ∈ t.bindingKeys ↔ k ∈ Binding.keys t.path ∨ (∃ p ∈ t.headers, k ∈ Binding.keys p.value) ∨
      (∃ p ∈ t.query, k ∈ Binding.keys p.value) ∨ ∃ b ∈ t.body, k ∈ Binding.keys b := by
  simp only [bindingKeys, TextSet.mem_ofList, texts, List.mem_flatMap, List.mem_append,
    List.mem_cons, List.mem_map, Option.mem_toList]
  constructor
  · rintro ⟨text, ((rfl | ⟨p, hp, rfl⟩) | ⟨p, hp, rfl⟩) | hb, hk⟩
    · exact .inl hk
    · exact .inr (.inl ⟨p, hp, hk⟩)
    · exact .inr (.inr (.inl ⟨p, hp, hk⟩))
    · exact .inr (.inr (.inr ⟨text, hb, hk⟩))
  · rintro (hk | ⟨p, hp, hk⟩ | ⟨p, hp, hk⟩ | ⟨b, hb, hk⟩)
    · exact ⟨t.path, .inl (.inl (.inl rfl)), hk⟩
    · exact ⟨p.value, .inl (.inl (.inr ⟨p, hp, rfl⟩)), hk⟩
    · exact ⟨p.value, .inl (.inr ⟨p, hp, rfl⟩), hk⟩
    · exact ⟨b, .inr hb, hk⟩

namespace Action

variable {a b : Action}

/-- Two actions with the same content, whatever is kept or derived beside it. -/
structure SameContent (a b : Action) : Prop where
  name : b.name = a.name
  plugin : b.plugin = a.plugin
  datasource : b.datasource = a.datasource
  template : b.template = a.template

/-! ## Reasons -/

theorem mem_defects_iff {d : Defect} : d ∈ a.defects ↔ a.hasDefect d = true := by
  rw [defects, List.mem_filter]
  constructor
  · exact fun h => h.2
  · intro h
    exact ⟨by cases d <;> simp, h⟩

theorem mem_invalids_refreshed_iff {text : String} :
    text ∈ a.refreshed.invalids ↔
      (text = "Missing plugin id" ∧ Text.isBlankText a.plugin = true) ∨
      (text = "Missing datasource" ∧ a.datasource = none) ∨
      (text = "Missing datasource url" ∧ ∃ d ∈ a.datasource, Text.isBlankText d.url = true) ∨
      (text = "Missing HTTP method" ∧ Text.isBlankText a.template.method = true) := by
  have hmem : text ∈ a.refreshed.invalids ↔ ∃ d, a.hasDefect d = true ∧ d.text = text := by
    rw [refreshed, TextSet.mem_ofList, List.mem_map]
    simp only [mem_defects_iff]
  rw [hmem]
  constructor
  · rintro ⟨d, hdefect, rfl⟩
    cases d with
    | missingPlugin => exact .inl ⟨rfl, hdefect⟩
    | missingDatasource => exact .inr (.inl ⟨rfl, Option.isNone_iff_eq_none.1 hdefect⟩)
    | missingUrl => exact .inr (.inr (.inl ⟨rfl, (Option.any_eq_true ..).1 hdefect⟩))
    | missingMethod => exact .inr (.inr (.inr ⟨rfl, hdefect⟩))
  · rintro (⟨rfl, h⟩ | ⟨rfl, h⟩ | ⟨rfl, hurl⟩ | ⟨rfl, h⟩)
    · exact ⟨.missingPlugin, h, rfl⟩
    · exact ⟨.missingDatasource, Option.isNone_iff_eq_none.2 h, rfl⟩
    · exact ⟨.missingUrl, (Option.any_eq_true ..).2 hurl, rfl⟩
    · exact ⟨.missingMethod, h, rfl⟩

theorem isValid_refreshed_iff : a.refreshed.isValid = true ↔ ∀ text, text ∉ a.refreshed.invalids := by
  simp only [refreshed, TextSet.mem_ofList, ← List.eq_nil_iff_forall_not_mem, List.map_eq_nil_iff,
    List.isEmpty_iff]

/-! ## Derived fields -/

/-- The derived fields follow from the others. -/
structure Derives (a : Action) : Prop where
  bindingKeys : ∀ k, k ∈ a.bindingKeys ↔
    k ∈ Binding.keys a.template.path ∨
    (∃ p ∈ a.template.headers, k ∈ Binding.keys p.value) ∨
    (∃ p ∈ a.template.query, k ∈ Binding.keys p.value) ∨
    (∃ b ∈ a.template.body, k ∈ Binding.keys b)
  invalids : ∀ text, text ∈ a.invalids ↔
    (text = "Missing plugin id" ∧ Text.isBlankText a.plugin = true) ∨
    (text = "Missing datasource" ∧ a.datasource = none) ∨
    (text = "Missing datasource url" ∧ ∃ d ∈ a.datasource, Text.isBlankText d.url = true) ∨
    (text = "Missing HTTP method" ∧ Text.isBlankText a.template.method = true)
  isValid : a.isValid = true ↔ ∀ text, text ∉ a.invalids

/-- Computing the derived fields anew makes them follow from the others. -/
theorem derives_refreshed (a : Action) : a.refreshed.Derives :=
  ⟨fun _ => RequestTemplate.mem_bindingKeys, fun _ => mem_invalids_refreshed_iff,
    isValid_refreshed_iff⟩

/-- The derived fields follow from the others just if computing them anew changes nothing. -/
theorem derives_iff : a.Derives ↔ a.refreshed = a := by
  constructor
  · intro h
    -- two sets with the same members are the same, so it is enough that both say the same
    have hrefreshed := derives_refreshed a
    have hkeys : a.refreshed.bindingKeys = a.bindingKeys :=
      TextSet.ext fun k => (hrefreshed.bindingKeys k).trans (h.bindingKeys k).symm
    have hinvalids : a.refreshed.invalids = a.invalids :=
      TextSet.ext fun text => (hrefreshed.invalids text).trans (h.invalids text).symm
    have hvalid : a.refreshed.isValid = a.isValid := by
      rw [Bool.eq_iff_iff, hrefreshed.isValid, h.isValid, hinvalids]
    show { a with
      bindingKeys := a.refreshed.bindingKeys
      isValid := a.refreshed.isValid
      invalids := a.refreshed.invalids } = a
    rw [hkeys, hvalid, hinvalids]
  · intro h
    rw [← h]
    exact derives_refreshed a

/-- An action that is valid has a datasource: that it has none is a reason not to be. -/
theorem Derives.isSome_datasource (h : a.Derives) (hvalid : a.isValid = true) :
    a.datasource.isSome := by
  cases hnone : a.datasource with
  | some d => rfl
  | none =>
    have hreason : "Missing datasource" ∈ a.invalids :=
      (h.invalids _).2 (.inr (.inl ⟨rfl, hnone⟩))
    exact absurd hreason (h.isValid.1 hvalid _)

namespace SameContent

theorem trans {a b c : Action} (h : a.SameContent b) (h' : b.SameContent c) : a.SameContent c :=
  ⟨h'.name.trans h.name, h'.plugin.trans h.plugin, h'.datasource.trans h.datasource,
    h'.template.trans h.template⟩

/-- Computing the derived fields anew keeps the content. -/
theorem refreshed (h : a.SameContent b) : a.SameContent b.refreshed :=
  ⟨h.name, h.plugin, h.datasource, h.template⟩

theorem hasDefect (h : a.SameContent b) (d : Defect) : b.hasDefect d = a.hasDefect d := by
  cases d with
  | missingPlugin => rw [Action.hasDefect, h.plugin, Action.hasDefect]
  | missingDatasource => rw [Action.hasDefect, h.datasource, Action.hasDefect]
  | missingUrl => rw [Action.hasDefect, h.datasource, Action.hasDefect]
  | missingMethod => rw [Action.hasDefect, h.template, Action.hasDefect]

theorem defects (h : a.SameContent b) : b.defects = a.defects :=
  List.filter_congr fun d _ => h.hasDefect d

/-- Whether an action can be run is a matter of its content. -/
theorem isValid_refreshed (h : a.SameContent b) : b.refreshed.isValid = a.refreshed.isValid := by
  rw [Action.refreshed, Action.refreshed, h.defects]

theorem invalids_refreshed (h : a.SameContent b) :
    b.refreshed.invalids = a.refreshed.invalids := by
  rw [Action.refreshed, Action.refreshed, h.defects]

end SameContent

end Action

end ActionBook
