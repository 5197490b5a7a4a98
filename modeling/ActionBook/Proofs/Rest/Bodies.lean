import ActionBook.Proofs.Json.Reading
import ActionBook.Proofs.Text.Replacing
import ActionBook.Rest.Response

/-!
# `Rest.Bodies`: what a body becomes

The body of a response is its JSON value if the first content type speaks of JSON and the body is JSON,
else it is kept as a text (`Decodes`). This is so whenever the word stands in lower case in the content
type, or in no case at all (`body_by_media_type`). A body of a content type that has the word in other
letters only is not looked at as JSON (`json_in_capitals_stays_text`).
-/

namespace ActionBook

open Text (Octets)

namespace Http

/-! ## Content types -/

/-- An octet, with letters of ASCII in lower case. -/
def lowerOctet (b : UInt8) : UInt8 := if 0x41 ≤ b ∧ b ≤ 0x5A then b + 0x20 else b

/-- All octets are visible ASCII, spaces and tabs. -/
def IsVisibleText (value : Octets) : Prop := ∀ b ∈ value, b = 0x09 ∨ 0x20 ≤ b ∧ b ≤ 0x7E

instance (value : Octets) : Decidable (IsVisibleText value) :=
  inferInstanceAs (Decidable (∀ b ∈ value, _))

theorem isVisible_lowerOctet (b : UInt8) :
    lowerOctet b = 0x09 ∨ 0x20 ≤ lowerOctet b ∧ lowerOctet b ≤ 0x7E ↔ b = 0x09 ∨ 0x20 ≤ b ∧ b ≤ 0x7E := by
  rw [lowerOctet]
  split
  next h =>
    -- a letter in either case is visible
    have hlow : 0x41 ≤ b.toNat := UInt8.le_iff_toNat_le.1 h.1
    have hhigh : b.toNat ≤ 0x5A := UInt8.le_iff_toNat_le.1 h.2
    have hsum : (b + 0x20).toNat = b.toNat + 0x20 := by
      rw [UInt8.toNat_add]
      exact Nat.mod_eq_of_lt (by show b.toNat + 0x20 < _; omega)
    simp only [UInt8.le_iff_toNat_le, hsum, UInt8.reduceToNat]
    exact iff_of_true (.inr (by omega)) (.inr (by omega))
  next => rfl

/-- Visible text stays so in lower case, and comes from nothing else. -/
theorem isVisibleText_map_lowerOctet {value : Octets} :
    IsVisibleText (value.map lowerOctet) ↔ IsVisibleText value := by
  simp only [IsVisibleText, List.forall_mem_map, isVisible_lowerOctet]

namespace Response

/-- The first content type of a response, without blanks at its ends. -/
def contentType? (r : Response) : Option Octets :=
  (r.headers.find? fun h => lowered h.1 = "content-type").map fun h => trimmedOctets h.2

/-- The first content type has the word for JSON in it, in whatever letter case. -/
def SpeaksOfJson (r : Response) : Prop :=
  ∃ value ∈ r.contentType?, IsVisibleText value ∧ Text.octets "json" <:+: value.map lowerOctet

/-- The first content type has the word for JSON in it in lower case. -/
def SpeaksInLowerCase (r : Response) : Prop :=
  ∃ value ∈ r.contentType?, IsVisibleText value ∧ Text.octets "json" <:+: value

variable {r r' : Response}

theorem SpeaksInLowerCase.speaksOfJson (h : r.SpeaksInLowerCase) : r.SpeaksOfJson := by
  obtain ⟨value, hvalue, hvisible, hword⟩ := h
  have hlower : (Text.octets "json").map lowerOctet = Text.octets "json" := by decide
  exact ⟨value, hvalue, hvisible, hlower ▸ hword.map lowerOctet⟩

/-- Letter case does not matter to what is said of a content type. -/
theorem speaksOfJson_iff_of_map_lowerOctet
    (h : r'.contentType?.map (·.map lowerOctet) = r.contentType?.map (·.map lowerOctet)) :
    r'.SpeaksOfJson ↔ r.SpeaksOfJson := by
  have hlowered (r : Response) : r.SpeaksOfJson ↔ ∃ low ∈ r.contentType?.map (·.map lowerOctet),
      IsVisibleText low ∧ Text.octets "json" <:+: low := by
    simp [SpeaksOfJson, isVisibleText_map_lowerOctet]
  rw [hlowered, hlowered, h]

end Response

end Http

namespace Rest

variable {r : Http.Response} {body : Octets} {v : JsonValue}

/-! ## The word in a content type -/

theorem occursIn_iff {part text : List Char} : occursIn part text = true ↔ part <:+: text := by
  induction text with
  | nil => rw [occursIn, List.isEmpty_iff, List.infix_nil]
  | cons c text ih =>
    rw [occursIn, Bool.or_eq_true, ih, List.isPrefixOf_iff_prefix, List.infix_cons_iff]

theorem isVisible_iff {value : Octets} : isVisible value = true ↔ Http.IsVisibleText value := by
  simp [isVisible, Http.IsVisibleText]

/-- The word is found in visible octets just if its octets stand there. -/
theorem occursIn_decodeLossy_iff {value : Octets} (h : Http.IsVisibleText value) :
    occursIn ['j', 's', 'o', 'n'] (Text.decodeLossy value) = true ↔ Text.octets "json" <:+: value := by
  have hascii : ∀ b ∈ value, b < 0x80 := by
    intro b hb
    rcases h b hb with rfl | ⟨-, hhigh⟩
    · decide
    · exact UInt8.lt_of_le_of_lt hhigh (by decide)
  have hword : ['j', 's', 'o', 'n'] = (Text.octets "json").map Text.asciiChar := by decide
  rw [occursIn_iff, Text.decodeLossy_of_ascii hascii, hword, List.infix_map_iff]
  constructor
  · rintro ⟨part, hpart, heq⟩
    rwa [List.map_injective_iff.2 Text.asciiChar_injective heq]
  · exact fun hinfix => ⟨_, hinfix, rfl⟩

theorem head?_values_normalised (r : Http.Response) :
    (r.normalised.values "content-type").head? = r.contentType? := by
  rw [Http.Response.values, Http.Response.normalised, List.head?_map, List.head?_filter,
    List.find?_map, Http.Response.contentType?, Option.map_map]
  rfl

theorem saysJson_normalised_iff : saysJson r.normalised = true ↔ r.SpeaksInLowerCase := by
  have hhead := head?_values_normalised r
  rw [saysJson, Http.Response.SpeaksInLowerCase, ← hhead]
  cases r.normalised.values "content-type" with
  | nil => simp
  | cons value others =>
    simp only [List.head?_cons, Option.mem_def, Option.some.injEq, exists_eq_left', Bool.and_eq_true,
      isVisible_iff]
    exact and_congr_right occursIn_decodeLossy_iff

/-! ## Bodies -/

/-- The octets are a JSON document of at most 127 levels that has the value. -/
def HoldsJson (body : Octets) (v : JsonValue) : Prop :=
  ∃ (text : List Char) (tree : Json), body = Text.encode text ∧ tree.IsDocument text ∧
    tree.nesting ≤ 127 ∧ tree.value = v

/-- What the body of a response stands for, by what its content type says: its JSON value, or else its
characters, with replacements for what is no character. -/
inductive Decodes (r : Http.Response) : JsonValue → Prop
  | json {v : JsonValue} (hjson : r.SpeaksOfJson) (h : HoldsJson r.body v) : Decodes r v
  | text {text : List Char} (h : ¬ (r.SpeaksOfJson ∧ ∃ v, HoldsJson r.body v))
    (htext : Text.Replaces r.body text) : Decodes r (.str (String.ofList text))

theorem jsonOf?_eq_some_iff : jsonOf? body = some v ↔ HoldsJson body v := by
  constructor
  · intro h
    unfold jsonOf? at h
    split at h
    · cases h
    next text hdecode =>
      split at h
      next w hparse =>
        cases h
        obtain ⟨tree, htree, hnesting, hvalue⟩ := Json.exists_of_parse hparse
        exact ⟨text, tree, Text.decode?_eq_some_iff.1 hdecode, htree, hnesting, hvalue⟩
      · cases h
  · rintro ⟨text, tree, htext, htree⟩
    unfold jsonOf?
    rw [Text.decode?_eq_some_iff.2 htext]
    simp only [Json.parse_eq_ok_iff.2 ⟨tree, htree⟩]

theorem lossyText_encode (text : List Char) : lossyText (Text.encode text) = String.ofList text := by
  rw [lossyText, Text.decodeLossy_encode]

/-- No JSON document is the value that it holds. -/
theorem HoldsJson.ne_str (h : HoldsJson body v) : v ≠ .str (lossyText body) := by
  obtain ⟨text, tree, rfl, htree, -, rfl⟩ := h
  rw [lossyText_encode]
  exact htree.value_ne

theorem body_result_of_holdsJson (hcase : r.SpeaksInLowerCase) (h : HoldsJson r.body v)
    (sent : SentRequest) : (result r.normalised sent).body = v := by
  show bodyValue r.body (saysJson r.normalised) = v
  rw [bodyValue, if_pos (saysJson_normalised_iff.2 hcase), jsonOf?_eq_some_iff.2 h, Option.getD_some]

theorem body_result_of_not (h : ¬ (r.SpeaksInLowerCase ∧ ∃ v, HoldsJson r.body v))
    (sent : SentRequest) : (result r.normalised sent).body = .str (lossyText r.body) := by
  show bodyValue r.body (saysJson r.normalised) = .str (lossyText r.body)
  rw [bodyValue]
  split
  next hsays =>
    cases hjson : jsonOf? r.body with
    | none => rfl
    | some v => exact absurd ⟨saysJson_normalised_iff.1 hsays, v, jsonOf?_eq_some_iff.1 hjson⟩ h
  next => rfl

/-- A JSON document is kept as a text if the word does not stand in lower case. -/
theorem not_decodes_result (hlower : ¬ r.SpeaksInLowerCase) (hspeaks : r.SpeaksOfJson)
    (h : HoldsJson r.body v) (sent : SentRequest) : ¬ Decodes r (result r.normalised sent).body := by
  rw [body_result_of_not (fun hboth => hlower hboth.1) sent]
  generalize htext : JsonValue.str (lossyText r.body) = w
  intro hdecodes
  cases hdecodes with
  | json _ hw => exact hw.ne_str htext.symm
  | text hnot => exact hnot ⟨hspeaks, v, h⟩

/-! ## Media types -/

/-- The body of a result is what the content type asks for, with one exception: a JSON document under a
content type that has the word in other letters than lower-case ones. What is not read as JSON is kept
as it is if it is a text. So letter case makes no difference between content types that have the word in
lower case if they have it at all. -/
theorem body_by_media_type (r : Http.Response) (sent : SentRequest) :
    (Decodes r (result r.normalised sent).body ↔
      (r.SpeaksOfJson → (∃ v, HoldsJson r.body v) → r.SpeaksInLowerCase)) ∧
    (∀ text, r.body = Text.encode text → ¬ (r.SpeaksOfJson ∧ ∃ v, HoldsJson r.body v) →
      (result r.normalised sent).body = .str (String.ofList text)) ∧
    ∀ (r' : Http.Response) (sent' : SentRequest), r'.body = r.body →
      r'.contentType?.map (·.map Http.lowerOctet) = r.contentType?.map (·.map Http.lowerOctet) →
      (r.SpeaksOfJson → r.SpeaksInLowerCase) → (r'.SpeaksOfJson → r'.SpeaksInLowerCase) →
      (result r'.normalised sent').body = (result r.normalised sent).body := by
  refine ⟨⟨fun hdecodes hspeaks ⟨v, hv⟩ => ?_, fun hcase => ?_⟩, fun text htext hnot => ?_,
    fun r' sent' hbody hmedia hr hr' => ?_⟩
  · by_contra hlower
    exact not_decodes_result hlower hspeaks hv sent hdecodes
  · by_cases h : r.SpeaksOfJson ∧ ∃ v, HoldsJson r.body v
    · obtain ⟨hspeaks, v, hv⟩ := h
      rw [body_result_of_holdsJson (hcase hspeaks ⟨v, hv⟩) hv]
      exact .json hspeaks hv
    · rw [body_result_of_not (fun hlower => h ⟨hlower.1.speaksOfJson, hlower.2⟩)]
      exact .text h (Text.replaces_iff.2 rfl)
  · rw [body_result_of_not (fun hlower => hnot ⟨hlower.1.speaksOfJson, hlower.2⟩), htext,
      lossyText_encode]
  · have hsame : saysJson r'.normalised = saysJson r.normalised := by
      rw [Bool.eq_iff_iff, saysJson_normalised_iff, saysJson_normalised_iff]
      have hspeaks := Http.Response.speaksOfJson_iff_of_map_lowerOctet hmedia
      exact ⟨fun h => hr (hspeaks.1 h.speaksOfJson), fun h => hr' (hspeaks.2 h.speaksOfJson)⟩
    show bodyValue r'.body (saysJson r'.normalised) = bodyValue r.body (saysJson r.normalised)
    rw [hsame, hbody]

/-- Two responses with a list, under content types that differ in letter case, before a second one. -/
theorem body_by_media_type_problem :
    let r : Http.Response := {
      headers := [("X-Id", [0xFF]), ("content-TYPE", Text.octets " Application/Problem+json"),
        ("Content-Type", Text.octets "text/plain")],
      body := Text.octets "[true]" }
    let r' : Http.Response := { r with
      headers := [("Content-Type", Text.octets "application/problem+json")] }
    let sent : SentRequest := ⟨"GET", "http://api.test/", [], none⟩
    r.SpeaksInLowerCase ∧ HoldsJson r.body (Json.arr [.bool true]).value ∧
      Decodes r (result r.normalised sent).body ∧
      (result r'.normalised sent).body = (result r.normalised sent).body := by
  intro r r' sent
  have hr : r.SpeaksInLowerCase := ⟨_, rfl, by decide +kernel, by decide +kernel⟩
  have hr' : r'.SpeaksInLowerCase := ⟨_, rfl, by decide +kernel, by decide +kernel⟩
  have hmedia : r'.contentType?.map (·.map Http.lowerOctet) =
      r.contentType?.map (·.map Http.lowerOctet) := by decide +kernel
  have hholds : HoldsJson r.body (Json.arr [.bool true]).value :=
    ⟨_, _, rfl, ⟨[], _, [], .nil, .arr (.last .nil .true .nil), .nil, rfl⟩, by decide, rfl⟩
  obtain ⟨hdecodes, -, hsame⟩ := body_by_media_type r sent
  exact ⟨hr, hholds, hdecodes.2 fun _ _ => hr, hsame r' sent rfl hmedia (fun _ => hr) fun _ => hr'⟩

/-- A list under a content type in capitals stays a text, though it is read under the same content type in
lower case. -/
theorem json_in_capitals_stays_text :
    let r : Http.Response := {
      headers := [("Content-Type", Text.octets "application/JSON")], body := Text.octets "[true]" }
    let r' : Http.Response := { r with
      headers := [("Content-Type", Text.octets "application/json")] }
    let sent : SentRequest := ⟨"GET", "http://api.test/", [], none⟩
    r.SpeaksOfJson ∧ HoldsJson r.body (Json.arr [.bool true]).value ∧
      ¬ Decodes r (result r.normalised sent).body ∧
      (result r.normalised sent).body = .str "[true]" ∧
      r'.contentType?.map (·.map Http.lowerOctet) = r.contentType?.map (·.map Http.lowerOctet) ∧
      (result r'.normalised sent).body = (Json.arr [.bool true]).value := by
  intro r r' sent
  have hspeaks : r.SpeaksOfJson := ⟨_, rfl, by decide +kernel, by decide +kernel⟩
  have hlower : ¬ r.SpeaksInLowerCase := by
    rintro ⟨value, hvalue, -, hword⟩
    cases hvalue
    revert hword
    decide +kernel
  have hr' : r'.SpeaksInLowerCase := ⟨_, rfl, by decide +kernel, by decide +kernel⟩
  have hholds : HoldsJson r.body (Json.arr [.bool true]).value :=
    ⟨_, _, rfl, ⟨[], _, [], .nil, .arr (.last .nil .true .nil), .nil, rfl⟩, by decide, rfl⟩
  have hbody := body_result_of_not (fun h => hlower h.1) sent
  have htext : lossyText r.body = "[true]" := lossyText_encode _
  rw [htext] at hbody
  exact ⟨hspeaks, hholds, not_decodes_result hlower hspeaks hholds sent, hbody, by decide +kernel,
    body_result_of_holdsJson hr' hholds sent⟩

end Rest

end ActionBook
