import ActionBook.Action.Format
import ActionBook.Proofs.Document.Codec

/-!
# `Action.Format`: actions come back from their format

The codecs of actions and of their parts are lawful at every reading with room for them: an action
takes four levels, its template and its datasource three, a key with a value one. They write no
numbers but whole ones.
-/

namespace ActionBook

open Codec

variable {r : Reading}

theorem ActionId.lawfulAt_codec : ActionId.codec.LawfulAt r :=
  lawfulAt_iso lawfulAt_text fun _ => rfl

theorem ActionId.writesWhole_codec : ActionId.codec.WritesWhole :=
  writesWhole_iso writesWhole_text _ _

theorem Property.lawfulAt_codec (h : r.Allows 1) : Property.codec.LawfulAt r := by
  obtain ⟨inner, hr, -⟩ := h.exists_deeper
  refine lawfulAt_record hr (by decide) ⟨?key, ?value, trivial⟩ fun _ => rfl
  case key => exact Field.lawfulAt_required lawfulAt_text
  case value => exact Field.lawfulAt_defaulting lawfulAt_text

theorem Property.writesWhole_codec : Property.codec.WritesWhole :=
  writesWhole_record ⟨writesWhole_text, writesWhole_text, trivial⟩

theorem Property.lawfulAt_list (h : r.Allows 2) : (listOf Property.codec).LawfulAt r := by
  obtain ⟨inner, hr, hinner⟩ := h.exists_deeper
  exact lawfulAt_listOf hr (lawfulAt_codec hinner)

theorem Datasource.lawfulAt_codec (h : r.Allows 3) : Datasource.codec.LawfulAt r := by
  obtain ⟨inner, hr, hinner⟩ := h.exists_deeper
  refine lawfulAt_record hr (by decide) ⟨?name, ?url, ?headers, trivial⟩ fun _ => rfl
  case name => exact Field.lawfulAt_required lawfulAt_text
  case url => exact Field.lawfulAt_required lawfulAt_text
  case headers => exact Field.lawfulAt_defaulting (Property.lawfulAt_list hinner)

theorem Datasource.writesWhole_codec : Datasource.codec.WritesWhole :=
  writesWhole_record
    ⟨writesWhole_text, writesWhole_text, writesWhole_listOf Property.writesWhole_codec, trivial⟩

theorem RequestTemplate.lawfulAt_codec (h : r.Allows 3) : RequestTemplate.codec.LawfulAt r := by
  obtain ⟨inner, hr, hinner⟩ := h.exists_deeper
  refine lawfulAt_record hr (by decide)
    ⟨?method, ?path, ?headers, ?query, ?body, ?timeout, trivial⟩ fun _ => rfl
  case method => exact Field.lawfulAt_defaulting lawfulAt_text
  case path => exact Field.lawfulAt_defaulting lawfulAt_text
  case headers => exact Field.lawfulAt_defaulting (Property.lawfulAt_list hinner)
  case query => exact Field.lawfulAt_defaulting (Property.lawfulAt_list hinner)
  case body => exact Field.lawfulAt_optional lawfulAt_text nofun
  case timeout => exact Field.lawfulAt_optional lawfulAt_count nofun

theorem RequestTemplate.writesWhole_codec : RequestTemplate.codec.WritesWhole := by
  refine writesWhole_record ⟨writesWhole_text, writesWhole_text, ?headers, ?query,
    writesWhole_optional writesWhole_text, writesWhole_optional writesWhole_count, trivial⟩
  case headers => exact writesWhole_listOf Property.writesWhole_codec
  case query => exact writesWhole_listOf Property.writesWhole_codec

theorem Action.lawfulAt_codec (h : r.Allows 4) : Action.codec.LawfulAt r := by
  obtain ⟨inner, hr, hinner⟩ := h.exists_deeper
  obtain ⟨_, hset, -⟩ := Reading.Allows.exists_deeper (hinner.mono (by decide : 1 ≤ 3))
  refine lawfulAt_record hr (by decide) ⟨?id, ?name, ?plugin, ?datasource, ?template, ?keys,
    ?isValid, ?invalids, ?createdAt, ?updatedAt, trivial⟩ fun _ => rfl
  case id => exact Field.lawfulAt_optional ActionId.lawfulAt_codec nofun
  case name => exact Field.lawfulAt_required lawfulAt_text
  case plugin => exact Field.lawfulAt_required lawfulAt_text
  case datasource =>
    exact Field.lawfulAt_optional (Datasource.lawfulAt_codec hinner) encode_record_ne_null
  case template => exact Field.lawfulAt_defaulting (RequestTemplate.lawfulAt_codec hinner)
  case keys => exact Field.lawfulAt_defaulting (lawfulAt_textSet hset)
  case isValid => exact Field.lawfulAt_defaulting lawfulAt_flag
  case invalids => exact Field.lawfulAt_defaulting (lawfulAt_textSet hset)
  case createdAt => exact Field.lawfulAt_optional lawfulAt_time encode_time_ne_null
  case updatedAt => exact Field.lawfulAt_optional lawfulAt_time encode_time_ne_null

theorem Action.writesWhole_codec : Action.codec.WritesWhole := by
  refine writesWhole_record ⟨?id, writesWhole_text, writesWhole_text, ?datasource,
    RequestTemplate.writesWhole_codec, writesWhole_textSet, writesWhole_flag, writesWhole_textSet,
    writesWhole_optional writesWhole_time, writesWhole_optional writesWhole_time, trivial⟩
  case id => exact writesWhole_optional ActionId.writesWhole_codec
  case datasource => exact writesWhole_optional Datasource.writesWhole_codec

end ActionBook
