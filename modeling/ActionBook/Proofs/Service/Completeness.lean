import ActionBook.Proofs.Binding.Rereading
import ActionBook.Proofs.Pairing
import ActionBook.Proofs.Service.Running

/-!
# `Service.Completeness`: nothing is left to fill in what is rendered

A template rendered with values without braces asks for no keys any more, and rendering it again
changes nothing. The exception are braces that the template keeps as they are, because their opening
has no closing before a value or their closing has no opening after it: around the value they may make
a binding. `rendering_is_complete` says so of texts, of request templates and of what an executor is
called with.
-/

namespace ActionBook

namespace Binding

variable {values : Values} {template text : String}

/-- Braces of the template get to enclose one of its values and a character of some kind. -/
def EnclosesValue (p : Char → Prop) (values : Values) (template : String) : Prop :=
  ∃ left right, FilledAt (fun k => (values k).getD "") template.toList left right ∧
    Enclosed p left right

/-- No value has a brace in it. -/
def BracelessValues (values : Values) : Prop :=
  ∀ k value, values k = some value → Braceless value.toList

theorem BracelessValues.getD (h : BracelessValues values) (k : String) :
    Braceless ((values k).getD "").toList := by
  cases hvalue : values k with
  | none => exact ⟨by simp, by simp⟩
  | some value => exact h k value hvalue

theorem keys_eq_nil_iff : keys template = [] ↔ Keyless template.toList := Iff.rfl

/-- A text without keys stays as it is. -/
theorem substituted_eq_self (h : keys template = []) (value : String → String) :
    substituted value template = template := by
  have hlayout : (Layout.ofSegments (segments template.toList)).keys = [] := by
    rw [Layout.keys_ofSegments]
    exact h
  have hfilled := Layout.filled_eq_text hlayout value
  rw [Layout.filled_ofSegments, Layout.text_ofSegments, source_segments] at hfilled
  rw [substituted, hfilled, String.ofList_toList]

theorem render_eq_self (h : keys template = []) (values : Values) :
    render values template = .ok template := by
  have hpresent : ∀ k ∈ keys template, values k ≠ none := by simp [h]
  rw [render_eq_ok hpresent, substituted_eq_self h]

/-- A rendered text has no keys, unless braces of the template get to enclose a value. -/
theorem keys_of_render_eq_ok (hvalues : BracelessValues values)
    (h : render values template = .ok text)
    (hnot : ¬ EnclosesValue (¬ Text.isBlank ·) values template) : keys text = [] := by
  obtain ⟨-, rfl⟩ := (reports_render values template).eq_ok_iff.1 h
  rw [keys_eq_nil_iff, toList_substituted]
  exact keyless_fill hvalues.getD fun left right hat henclosed =>
    hnot ⟨left, right, hat, henclosed⟩

/-- Braces around a value and a plain character make a key of the rendered text. -/
theorem keys_ne_nil_of_render_eq_ok (h : render values template = .ok text)
    (henclosed : EnclosesValue IsPlain values template) : keys text ≠ [] := by
  obtain ⟨-, rfl⟩ := (reports_render values template).eq_ok_iff.1 h
  obtain ⟨left, right, hat, henclosed⟩ := henclosed
  rw [Ne, keys_eq_nil_iff, toList_substituted]
  exact not_keyless_fill hat henclosed

end Binding

open Binding (Values EnclosesValue BracelessValues)

/-! ## Request templates -/

namespace RequestTemplate

variable {values : Values} {t t' : RequestTemplate}

theorem mem_bindingKeys_iff {k : String} :
    k ∈ t.bindingKeys ↔ ∃ text ∈ t.texts, k ∈ Binding.keys text := by
  rw [bindingKeys, TextSet.mem_ofList, List.mem_flatMap]

/-- Every text of a rendered template is a text of the template, rendered. -/
theorem RenderedTo.exists_text {text' : String} (h : t.RenderedTo values t')
    (hmem : text' ∈ t'.texts) :
    ∃ text ∈ t.texts, Binding.render values text = .ok text' := by
  have hvalue {properties properties' : List Property}
      (hall : List.Forall₂ (Property.RenderedTo values) properties properties')
      (hmem : text' ∈ properties'.map Property.value) :
      ∃ text ∈ properties.map Property.value, Binding.render values text = .ok text' := by
    obtain ⟨p', hp', rfl⟩ := List.mem_map.1 hmem
    obtain ⟨p, hp, hrendered⟩ := exists_of_mem_right hall hp'
    exact ⟨p.value, List.mem_map_of_mem hp, hrendered.2⟩
  simp only [texts, List.cons_append, List.mem_cons, List.mem_append] at hmem ⊢
  rcases hmem with rfl | (hmem | hmem) | hmem
  · exact ⟨t.path, .inl rfl, h.path⟩
  · obtain ⟨text, htext, hrendered⟩ := hvalue h.headers hmem
    exact ⟨text, .inr (.inl (.inl htext)), hrendered⟩
  · obtain ⟨text, htext, hrendered⟩ := hvalue h.query hmem
    exact ⟨text, .inr (.inl (.inr htext)), hrendered⟩
  · have hbody := h.body
    rw [Option.mem_toList] at hmem
    rw [hmem] at hbody
    cases hb : t.body with
    | none =>
      rw [hb] at hbody
      cases hbody
    | some body =>
      rw [hb] at hbody
      cases hbody with
      | some hrendered => exact ⟨body, .inr (.inr (by simp)), hrendered⟩

/-- A template that asks for no keys stays as it is. -/
theorem substituted_eq_self (h : ∀ text ∈ t.texts, Binding.keys text = [])
    (value : String → String) : t.substituted value = t := by
  obtain ⟨method, path, headers, query, body, timeout⟩ := t
  simp only [texts, List.cons_append, List.mem_cons, List.mem_append, List.mem_map,
    Option.mem_toList] at h
  have hproperties {properties : List Property}
      (hkeys : ∀ p ∈ properties, Binding.keys p.value = []) :
      properties.map (Property.substituted value) = properties := by
    have hsame : properties.map (Property.substituted value) = properties.map id := by
      refine List.map_congr_left fun p hp => ?_
      rw [Property.substituted, Binding.substituted_eq_self (hkeys p hp)]
      rfl
    rw [hsame, List.map_id]
  have hbody : body.map (Binding.substituted value) = body := by
    cases body with
    | none => rfl
    | some body => rw [Option.map_some, Binding.substituted_eq_self (h _ (.inr (.inr rfl)))]
  unfold substituted
  simp only
  rw [Binding.substituted_eq_self (h _ (.inl rfl)),
    hproperties fun p hp => h _ (.inr (.inl (.inl ⟨p, hp, rfl⟩))),
    hproperties fun p hp => h _ (.inr (.inl (.inr ⟨p, hp, rfl⟩))), hbody]

theorem rendered_eq_self (h : ∀ text ∈ t.texts, Binding.keys text = []) (values : Values) :
    t.rendered values = .ok t := by
  refine (reports_rendered values t).eq_ok_iff.2 ⟨?_, substituted_eq_self h _⟩
  rintro k ⟨hk, -⟩
  obtain ⟨text, htext, hk⟩ := mem_bindingKeys_iff.1 hk
  rw [h text htext] at hk
  exact List.not_mem_nil hk

/-- The texts of a rendered template have no keys, unless braces in one of them get to enclose a
value. -/
theorem keys_of_rendered_eq_ok (hvalues : BracelessValues values) (h : t.rendered values = .ok t')
    (hnot : ∀ text ∈ t.texts, ¬ EnclosesValue (¬ Text.isBlank ·) values text) :
    ∀ text ∈ t'.texts, Binding.keys text = [] := by
  intro text' htext'
  obtain ⟨text, htext, hrendered⟩ := (renderedTo_of_rendered h).exists_text htext'
  exact Binding.keys_of_render_eq_ok hvalues hrendered (hnot text htext)

end RequestTemplate

theorem Param.bracelessValues_lookup {params : List Param}
    (h : ∀ p ∈ params, Binding.Braceless p.value.toList) : BracelessValues (lookup params) := by
  intro k value hvalue
  obtain ⟨before, after, rfl, -⟩ := lookup_eq_some_iff.1 hvalue
  exact h ⟨k, value⟩ (by simp)

/-! ## Calls -/

namespace Service

open Operation

variable {World : Type} {s : Service World} {r : RunRequest} {a : Action} {params : List Param}
  {ledger : Ledger} {call : PluginCall World}

theorem template_of_callFor_eq_ok (h : s.callFor a params = .ok call) :
    a.template.rendered (Param.lookup params) = .ok call.template := by
  unfold callFor at h
  split at h
  · split at h
    · cases h
    · split at h
      · cases h
      · split at h
        · cases h
        next template htemplate =>
          cases h
          exact htemplate
  · cases h

/-- What an executor is called with is the template of the action, rendered. -/
theorem exists_of_prepare_eq_ok (h : (s.prepare r).outcome ledger = .ok call) :
    ∃ a, (resolve r).outcome ledger = .ok a ∧
      a.template.rendered (Param.lookup r.params) = .ok call.template := by
  rw [outcome_prepare] at h
  cases hresolve : (resolve r).outcome ledger with
  | error e =>
    rw [hresolve] at h
    cases h
  | ok a =>
    rw [hresolve] at h
    exact ⟨a, rfl, template_of_callFor_eq_ok h⟩

/-- A text rendered with values without braces has no keys and stays as it is when it is rendered again,
unless braces that its template keeps get to enclose a value; if they enclose a plain character as well,
it does have a key. So a template rendered with such params has no binding keys left unless that happens
in one of its texts, and neither has the template that an executor is called with. -/
theorem rendering_is_complete :
    (∀ (values : Values) (template text : String), BracelessValues values →
      Binding.render values template = .ok text →
      (¬ EnclosesValue (¬ Text.isBlank ·) values template →
        Binding.keys text = [] ∧ ∀ values', Binding.render values' text = .ok text) ∧
      (EnclosesValue Binding.IsPlain values template → Binding.keys text ≠ [])) ∧
    (∀ (params : List Param) (t t' : RequestTemplate),
      (∀ p ∈ params, Binding.Braceless p.value.toList) →
      t.rendered (Param.lookup params) = .ok t' →
      (∀ text ∈ t.texts, ¬ EnclosesValue (¬ Text.isBlank ·) (Param.lookup params) text) →
      (∀ k, k ∉ t'.bindingKeys) ∧ ∀ values, t'.rendered values = .ok t') ∧
    ∀ (s : Service World) (r : RunRequest) (ledger : Ledger) (call : PluginCall World),
      (∀ p ∈ r.params, Binding.Braceless p.value.toList) →
      (s.prepare r).outcome ledger = .ok call →
      ∃ a, (resolve r).outcome ledger = .ok a ∧
        a.template.rendered (Param.lookup r.params) = .ok call.template ∧
        ((∀ text ∈ a.template.texts,
            ¬ EnclosesValue (¬ Text.isBlank ·) (Param.lookup r.params) text) →
          ∀ k, k ∉ call.template.bindingKeys) := by
  have hnone {t : RequestTemplate} (h : ∀ text ∈ t.texts, Binding.keys text = []) (k : String) :
      k ∉ t.bindingKeys := by
    rw [RequestTemplate.mem_bindingKeys_iff]
    rintro ⟨text, htext, hk⟩
    rw [h text htext] at hk
    exact List.not_mem_nil hk
  refine ⟨fun values template text hvalues hrender => ⟨fun hnot => ?_, ?_⟩, ?_, ?_⟩
  · have hkeys := Binding.keys_of_render_eq_ok hvalues hrender hnot
    exact ⟨hkeys, Binding.render_eq_self hkeys⟩
  · exact Binding.keys_ne_nil_of_render_eq_ok hrender
  · intro params t t' hparams hrendered hnot
    have hkeys := RequestTemplate.keys_of_rendered_eq_ok (Param.bracelessValues_lookup hparams)
      hrendered hnot
    exact ⟨hnone hkeys, RequestTemplate.rendered_eq_self hkeys⟩
  · intro s r ledger call hparams hprepare
    obtain ⟨a, hresolve, hrendered⟩ := exists_of_prepare_eq_ok hprepare
    exact ⟨a, hresolve, hrendered, fun hnot => hnone (RequestTemplate.keys_of_rendered_eq_ok
      (Param.bracelessValues_lookup hparams) hrendered hnot)⟩

/-- An opening that waits for its closing before a binding, and no closing after it. -/
theorem rendering_is_complete_nested :
    BracelessValues (Param.lookup [⟨"b", "1"⟩]) ∧
      Binding.render (Param.lookup [⟨"b", "1"⟩]) "\x7b\x7b a \x7b\x7bb\x7d\x7d" =
        .ok "\x7b\x7b a 1" ∧
      ¬ EnclosesValue (¬ Text.isBlank ·) (Param.lookup [⟨"b", "1"⟩])
        "\x7b\x7b a \x7b\x7bb\x7d\x7d" ∧
      Binding.keys "\x7b\x7b a 1" = [] := by
  have hvalues : BracelessValues (Param.lookup [⟨"b", "1"⟩]) :=
    Param.bracelessValues_lookup fun p hp => by
      rw [List.mem_singleton.1 hp]
      exact ⟨by decide, by decide⟩
  have hrender : Binding.render (Param.lookup [⟨"b", "1"⟩]) "\x7b\x7b a \x7b\x7bb\x7d\x7d" =
      .ok "\x7b\x7b a 1" := by decide +kernel
  have hnot : ¬ EnclosesValue (¬ Text.isBlank ·) (Param.lookup [⟨"b", "1"⟩])
      "\x7b\x7b a \x7b\x7bb\x7d\x7d" := by
    rintro ⟨left, right, hat, henclosed⟩
    have hclosing : '}' ∈ left ++ right := List.mem_append_right _ henclosed.closing_mem
    rw [hat.append_eq] at hclosing
    revert hclosing
    decide +kernel
  have hcomplete := (@rendering_is_complete Nat).1 _ _ _ hvalues hrender
  exact ⟨hvalues, hrender, hnot, (hcomplete.1 hnot).1⟩

/-- The braces that are left around a value make a binding of it. -/
theorem enclosed_value_is_key :
    BracelessValues (Param.lookup [⟨"a", "x"⟩]) ∧
      Binding.render (Param.lookup [⟨"a", "x"⟩]) "\x7b\x7b \x7b\x7ba\x7d\x7d \x7d\x7d" =
        .ok "\x7b\x7b x \x7d\x7d" ∧
      Binding.keys "\x7b\x7b x \x7d\x7d" = ["x"] ∧
      Binding.render (Param.lookup [⟨"a", "x"⟩]) "\x7b\x7b x \x7d\x7d" =
        .error (.ofList ["x"]) := by
  refine ⟨Param.bracelessValues_lookup fun p hp => ?_, ?_, ?_, ?_⟩
  · rw [List.mem_singleton.1 hp]
    exact ⟨by decide, by decide⟩
  · decide +kernel
  · decide +kernel
  · decide +kernel

end Service

end ActionBook
