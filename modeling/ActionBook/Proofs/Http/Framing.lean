import ActionBook.Http.Arrival
import ActionBook.Proofs.Http.Chunks
import ActionBook.Proofs.Text.Trimming

/-!
# `Http.Framing`: what a response holds

The octets behind the headers of a response are what it holds in chunks, or some of them are what it
holds, or all. `Response.Carries` says which, in terms of the headers and these octets alone. It is what
the client takes from them (`carries_iff`).
-/

namespace ActionBook.Http

open Text (Octets encode IsNumeral Padded)

variable {r : Response} {method : String} {value content : Octets} {values : List Octets}
  {text : List Char} {n : Nat}

/-! ## Codings -/

/-- The last of the codings in a value is that of chunks, whatever the case of its letters. -/
def EndsInChunked (value : Octets) : Prop :=
  ∃ text, value = encode text ∧ (∀ c ∈ text, c.toNat < 0x80) ∧
    ∃ last ∈ (Text.splitOn ',' text).getLast?, Padded (·.map Char.toLower = chunkedCoding) last

theorem not_isBlank_of_chunkedCoding (h : text.map Char.toLower = chunkedCoding) :
    ∀ c ∈ text, ¬ Text.isBlank c := by
  intro c hc
  have hmem : c.toLower ∈ chunkedCoding := h ▸ List.mem_map_of_mem hc
  have hnone : chunkedCoding.all (!Text.isBlank ·) = true := by decide
  rw [← Text.apply_toLower (p := Text.isBlank) (by decide) c]
  simpa using List.all_eq_true.1 hnone _ hmem

theorem endsInChunked_iff : endsInChunked value = true ↔ EndsInChunked value := by
  unfold endsInChunked
  constructor
  · intro h
    split at h
    next => cases h
    next text htext =>
      obtain ⟨last, hlast, hcoding⟩ := Option.any_eq_true _ _ |>.1 h
      obtain ⟨hvalue, hascii⟩ := ascii?_eq_some_iff.1 htext
      exact ⟨text, hvalue, hascii, last, hlast,
        (Text.padded_iff fun _ => not_isBlank_of_chunkedCoding).2 (of_decide_eq_true hcoding)⟩
  · rintro ⟨text, hvalue, hascii, last, hlast, hcoding⟩
    have hname := (Text.padded_iff fun _ => not_isBlank_of_chunkedCoding).1 hcoding
    rw [ascii?_eq_some_iff.2 ⟨hvalue, hascii⟩]
    simp only [Option.mem_def.1 hlast, Option.any_some, hname, decide_true]

/-! ## Lengths -/

/-- A value tells a length: it consists of numerals of it, with commas between them. -/
def TellsLength (n : Nat) (value : Octets) : Prop :=
  ∃ text, value = encode text ∧ (∀ c ∈ text, c.toNat < 0x80) ∧
    ∀ piece ∈ Text.splitOn ',' text, Padded (IsNumeral 10 n) piece

theorem not_isBlank_of_isNumeral (h : IsNumeral 10 n text) : ∀ c ∈ text, ¬ Text.isBlank c := by
  intro c hc
  have hdigit := h.isDigitIn c hc
  exact Text.of_toNat_lt (p := fun c => Text.isDigitIn 10 c → ¬ Text.isBlank c)
    (Text.toNat_lt_of_isDigitIn hdigit) (by decide) hdigit

theorem number?_eq_some_iff : number? text = some n ↔ Padded (IsNumeral 10 n) text := by
  rw [Text.padded_iff fun _ => not_isBlank_of_isNumeral, number?]
  constructor
  · intro h
    split at h
    next => cases h
    next hdigits =>
      cases h
      rw [not_or, List.isEmpty_iff, Bool.not_eq_false, List.all_eq_true] at hdigits
      exact ⟨hdigits.1, hdigits.2, rfl⟩
  · intro h
    have hdigits : ¬((Text.trim text).isEmpty = true ∨ (Text.trim text).all Text.isDigit = false) := by
      rw [not_or, List.isEmpty_iff, Bool.not_eq_false, List.all_eq_true]
      exact ⟨h.ne_nil, h.isDigitIn⟩
    simp only [if_neg hdigits, h.value]

theorem forall_mem_numbersIn_iff : (∀ number ∈ numbersIn value, number = some n) ↔ TellsLength n value := by
  unfold numbersIn
  constructor
  · intro h
    split at h
    next => cases h none (List.mem_singleton_self _)
    next text htext =>
      obtain ⟨hvalue, hascii⟩ := ascii?_eq_some_iff.1 htext
      exact ⟨text, hvalue, hascii, fun piece hpiece =>
        number?_eq_some_iff.1 (h _ (List.mem_map_of_mem hpiece))⟩
  · rintro ⟨text, hvalue, hascii, hpieces⟩
    rw [ascii?_eq_some_iff.2 ⟨hvalue, hascii⟩]
    intro number hnumber
    obtain ⟨piece, hpiece, rfl⟩ := List.mem_map.1 hnumber
    exact number?_eq_some_iff.2 (hpieces piece hpiece)

theorem numbersIn_ne_nil (value : Octets) : numbersIn value ≠ [] := by
  unfold numbersIn
  split
  · exact List.cons_ne_nil _ _
  · exact mt List.map_eq_nil_iff.1 (Text.splitOn_ne_nil _ _)

/-- Values have a length just if each of them tells it. -/
theorem lengthIn?_eq_some_iff :
    lengthIn? values = some n ↔
      values ≠ [] ∧ (∀ value ∈ values, TellsLength n value) ∧ n ≤ lengthLimit := by
  have hall : (∀ number ∈ values.flatMap numbersIn, number = some n) ↔
      ∀ value ∈ values, TellsLength n value := by
    simp only [← forall_mem_numbersIn_iff, List.mem_flatMap]
    exact ⟨fun h value hvalue number hnumber => h number ⟨value, hvalue, hnumber⟩,
      fun h number ⟨value, hvalue, hnumber⟩ => h value hvalue number hnumber⟩
  have hnone : values ≠ [] ↔ values.flatMap numbersIn ≠ [] := by
    rw [not_iff_not, List.flatMap_eq_nil_iff]
    constructor
    · rintro rfl
      exact nofun
    · intro h
      exact List.eq_nil_iff_forall_not_mem.2 fun value hvalue => numbersIn_ne_nil value (h value hvalue)
  rw [← hall, hnone, lengthIn?]
  rcases values.flatMap numbersIn with _ | ⟨_ | length, others⟩
  · simp
  · simp
  · simp only [ne_eq, reduceCtorEq, not_false_eq_true, true_and, List.forall_mem_cons,
      Option.some.injEq, Bool.and_eq_true, List.all_eq_true, decide_eq_true_eq]
    constructor
    · intro h
      split at h
      next hsame =>
        cases h
        exact ⟨⟨rfl, hsame.1⟩, hsame.2⟩
      next => cases h
    · rintro ⟨⟨rfl, hothers⟩, hlimit⟩
      exact if_pos ⟨hothers, hlimit⟩

/-! ## Bodies -/

/-- There is no body in the response to a request with the method. -/
def Response.IsBodiless (method : String) (r : Response) : Prop :=
  r.status ∈ [101, 204, 304] ∨ method = "HEAD" ∨
    method = "CONNECT" ∧ 200 ≤ r.status ∧ r.status ≤ 299

theorem isBodiless_iff : isBodiless method r.status = true ↔ r.IsBodiless method := by
  simp [isBodiless, Response.IsBodiless, or_assoc, and_assoc, Nat.lt_succ_iff]

/-- What a response to a request with the method holds, if all of it is there. -/
inductive Response.Carries (method : String) (r : Response) : Octets → Prop
  | nothing (hbody : r.IsBodiless method) : r.Carries method []
  /-- Chunks end a body themselves. -/
  | chunks {codings content written rest : Octets} {extensions : Nat} (hbody : ¬ r.IsBodiless method)
    (hversion : r.version = .http11)
    (hcodings : codings ∈ (r.normalised.values "transfer-encoding").getLast?)
    (hchunked : EndsInChunked codings) (hroom : extensions ≤ extensionRoom)
    (hwritten : Chunked extensions content written) (hoctets : r.body = written ++ rest) :
    r.Carries method content
  /-- Under any other coding, a body ends with the connection. -/
  | coded {codings : Octets} (hbody : ¬ r.IsBodiless method) (hversion : r.version = .http11)
    (hcodings : codings ∈ (r.normalised.values "transfer-encoding").getLast?)
    (hchunked : ¬ EndsInChunked codings) : r.Carries method r.body
  /-- Without a coding, a body is as long as all that tell its length agree on. -/
  | measured {length : Nat} (hbody : ¬ r.IsBodiless method)
    (hcodings : r.normalised.values "transfer-encoding" = [])
    (hsome : r.normalised.values "content-length" ≠ [])
    (htold : ∀ value ∈ r.normalised.values "content-length", TellsLength length value)
    (hlimit : length ≤ lengthLimit) (hall : length ≤ r.body.length) :
    r.Carries method (r.body.take length)
  | unmeasured (hbody : ¬ r.IsBodiless method)
    (hcodings : r.normalised.values "transfer-encoding" = [])
    (hnone : r.normalised.values "content-length" = []) : r.Carries method r.body

theorem carries_iff_of_isBodiless (h : r.IsBodiless method) :
    r.Carries method content ↔ content = [] := by
  constructor
  · intro hcarries
    cases hcarries with
    | nothing => rfl
    | chunks hbody | coded hbody | measured hbody | unmeasured hbody => exact absurd h hbody
  · rintro rfl
    exact .nothing h

theorem carries_iff_of_coding (hbody : ¬ r.IsBodiless method) {codings : Octets}
    (h : (r.normalised.values "transfer-encoding").getLast? = some codings) :
    r.Carries method content ↔ r.version = .http11 ∧
      (EndsInChunked codings ∧ readChunks? extensionRoom r.body = some content ∨
        ¬ EndsInChunked codings ∧ r.body = content) := by
  have hnone : r.normalised.values "transfer-encoding" ≠ [] := by
    intro hnil
    rw [hnil] at h
    cases h
  constructor
  · intro hcarries
    cases hcarries with
    | nothing hno => exact absurd hno hbody
    | chunks _ hversion hcodings hchunked hroom hwritten hoctets =>
      obtain rfl := Option.some.inj (h.symm.trans hcodings)
      exact ⟨hversion, .inl ⟨hchunked,
        readChunks?_eq_some_iff.2 ⟨_, _, _, hwritten, hroom, hoctets⟩⟩⟩
    | coded _ hversion hcodings hchunked =>
      obtain rfl := Option.some.inj (h.symm.trans hcodings)
      exact ⟨hversion, .inr ⟨hchunked, rfl⟩⟩
    | measured _ hnil | unmeasured _ hnil => exact absurd hnil hnone
  · rintro ⟨hversion, ⟨hchunked, hread⟩ | ⟨hchunked, rfl⟩⟩
    · obtain ⟨extensions, written, rest, hwritten, hroom, hoctets⟩ := readChunks?_eq_some_iff.1 hread
      exact .chunks hbody hversion h hchunked hroom hwritten hoctets
    · exact .coded hbody hversion h hchunked

theorem carries_iff_of_no_coding (hbody : ¬ r.IsBodiless method)
    (h : r.normalised.values "transfer-encoding" = []) :
    r.Carries method content ↔
      r.normalised.values "content-length" = [] ∧ r.body = content ∨
        ∃ length, lengthIn? (r.normalised.values "content-length") = some length ∧
          length ≤ r.body.length ∧ r.body.take length = content := by
  have hnone (codings : Octets) : codings ∉ (r.normalised.values "transfer-encoding").getLast? := by
    rw [h]
    exact nofun
  constructor
  · intro hcarries
    cases hcarries with
    | nothing hno => exact absurd hno hbody
    | chunks _ _ hcodings | coded _ _ hcodings => exact absurd hcodings (hnone _)
    | measured _ _ hsome htold hlimit hall =>
      exact .inr ⟨_, lengthIn?_eq_some_iff.2 ⟨hsome, htold, hlimit⟩, hall, rfl⟩
    | unmeasured _ _ hnil => exact .inl ⟨hnil, rfl⟩
  · rintro (⟨hnil, rfl⟩ | ⟨length, hlength, hall, rfl⟩)
    · exact .unmeasured hbody h hnil
    · obtain ⟨hsome, htold, hlimit⟩ := lengthIn?_eq_some_iff.1 hlength
      exact .measured hbody h hsome htold hlimit hall

/-- What a response holds is what is taken from the octets behind its headers. -/
theorem carries_iff :
    r.Carries method content ↔ ∃ framing, r.normalised.framing? method = some framing ∧
      framing.content? r.body = some content := by
  have hstatus : r.normalised.status = r.status := rfl
  have hversion : r.normalised.version = r.version := rfl
  unfold Response.framing?
  rw [hstatus, hversion]
  by_cases hbody : r.IsBodiless method
  · rw [carries_iff_of_isBodiless hbody, if_pos (isBodiless_iff.2 hbody)]
    simp [Framing.content?, eq_comm]
  · rw [if_neg (mt isBodiless_iff.1 hbody)]
    cases hlast : (r.normalised.values "transfer-encoding").getLast? with
    | some codings =>
      rw [carries_iff_of_coding hbody hlast, ← endsInChunked_iff]
      cases r.version with
      | http10 => simp
      | http11 => by_cases hchunked : endsInChunked codings = true <;> simp [hchunked, Framing.content?]
    | none =>
      rw [carries_iff_of_no_coding hbody (List.getLast?_eq_none_iff.1 hlast)]
      cases r.normalised.values "content-length" with
      | nil => simp [Framing.content?, lengthIn?]
      | cons value others => simp [Framing.content?]

end ActionBook.Http
