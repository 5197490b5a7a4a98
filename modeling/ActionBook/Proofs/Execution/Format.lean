import ActionBook.Execution.Format
import ActionBook.Proofs.Action.Format

/-!
# `Execution.Format`: runs come back from their format

A request to run takes five levels, with the action it may bring along; a request as it was sent
takes three. What came of a run holds free values, which may be nested to any depth, so it comes back
where depth is not bounded.
-/

namespace ActionBook

open Codec

variable {r : Reading}

theorem Param.lawfulAt_codec (h : r.Allows 1) : Param.codec.LawfulAt r := by
  obtain ⟨inner, hr, -⟩ := h.exists_deeper
  refine lawfulAt_record hr (by decide) ⟨?key, ?value, trivial⟩ fun _ => rfl
  case key => exact Field.lawfulAt_required lawfulAt_text
  case value => exact Field.lawfulAt_required lawfulAt_text

theorem Param.writesWhole_codec : Param.codec.WritesWhole :=
  writesWhole_record ⟨writesWhole_text, writesWhole_text, trivial⟩

theorem RunRequest.lawfulAt_codec (h : r.Allows 5) : RunRequest.codec.LawfulAt r := by
  obtain ⟨inner, hr, hinner⟩ := h.exists_deeper
  obtain ⟨item, hitem, hallows⟩ := hinner.exists_deeper
  refine lawfulAt_record hr (by decide) ⟨?actionId, ?action, ?params, trivial⟩ fun _ => rfl
  case actionId => exact Field.lawfulAt_optional ActionId.lawfulAt_codec nofun
  case action => exact Field.lawfulAt_optional (Action.lawfulAt_codec hinner) encode_record_ne_null
  case params =>
    have hparam : Param.codec.LawfulAt item := Param.lawfulAt_codec (hallows.mono (by decide))
    exact Field.lawfulAt_defaulting (lawfulAt_listOf hitem hparam)

theorem RunRequest.writesWhole_codec : RunRequest.codec.WritesWhole := by
  refine writesWhole_record ⟨?actionId, ?action, ?params, trivial⟩
  case actionId => exact writesWhole_optional ActionId.writesWhole_codec
  case action => exact writesWhole_optional Action.writesWhole_codec
  case params => exact writesWhole_listOf Param.writesWhole_codec

theorem SentRequest.lawfulAt_codec (h : r.Allows 3) : SentRequest.codec.LawfulAt r := by
  obtain ⟨inner, hr, hinner⟩ := h.exists_deeper
  refine lawfulAt_record hr (by decide) ⟨?method, ?url, ?headers, ?body, trivial⟩ fun _ => rfl
  case method => exact Field.lawfulAt_required lawfulAt_text
  case url => exact Field.lawfulAt_required lawfulAt_text
  case headers => exact Field.lawfulAt_required (Property.lawfulAt_list hinner)
  case body => exact Field.lawfulAt_optionalByName lawfulAt_text nofun

theorem SentRequest.writesWhole_codec : SentRequest.codec.WritesWhole :=
  writesWhole_record ⟨writesWhole_text, writesWhole_text,
    writesWhole_listOf Property.writesWhole_codec, writesWhole_optional writesWhole_text, trivial⟩

/-- The headers and the body of an answer are free values, so that no number of levels is enough. -/
theorem RunResult.lawfulAt_codec (h : r.levels = none) : RunResult.codec.LawfulAt r := by
  have hallows : r.Allows 3 := Reading.allows_of_levels_eq_none h
  refine lawfulAt_record (Reading.deeper_of_levels_eq_none h) (by decide)
    ⟨?status, ?headers, ?body, ?isSuccess, ?request, ?duration, trivial⟩ fun _ => rfl
  case status => exact Field.lawfulAt_required lawfulAt_text
  case headers => exact Field.lawfulAt_required (lawfulAt_free h)
  case body => exact Field.lawfulAt_required (lawfulAt_free h)
  case isSuccess => exact Field.lawfulAt_required lawfulAt_flag
  case request =>
    exact Field.lawfulAt_optionalByName (SentRequest.lawfulAt_codec hallows) encode_record_ne_null
  case duration => exact Field.lawfulAt_required lawfulAt_count

end ActionBook
