import ActionBook.Proofs.Http.Framing
import ActionBook.Proofs.Http.Sending

/-!
# `Http.Receiving`: what arrives of a response

A response that can be read arrives with its own status and its headers (`of_received`). What it holds
arrives just if it comes in full (`received_eq_some_iff`). Unless it redirects, it is all that comes of a
request (`send_of_not_redirects`).
-/

namespace ActionBook.Http

variable {network : Network} {o : Outgoing} {r : Response} {method : String} {arrival : Arrival}

/-! ## Headers in lower case and without blanks -/

theorem isTokenChar_toLower (c : Char) : isTokenChar c.toLower = isTokenChar c :=
  Text.apply_toLower (by decide) c

theorem isHeaderName_lowered (name : String) :
    isHeaderName (lowered name).toList = isHeaderName name.toList := by
  simp [isHeaderName, isToken, lowered, List.all_map, Function.comp_def, isTokenChar_toLower]

theorem all_dropWhile {α : Type} {p q : α → Bool} (h : ∀ a, q a = true → p a = true) (l : List α) :
    (l.dropWhile q).all p = l.all p := by
  induction l with
  | nil => rfl
  | cons a l ih =>
    rw [List.dropWhile_cons]
    split
    next hq => rw [ih, List.all_cons, h a hq, Bool.true_and]
    next => rfl

theorem isHeaderOctets_trimmedOctets (value : Text.Octets) :
    isHeaderOctets (trimmedOctets value) = isHeaderOctets value := by
  have hgap (b : UInt8) (h : isGap b = true) : (b == 0x09 || (0x20 ≤ b && b ≠ 0x7F)) = true := by
    simp only [isGap, Bool.or_eq_true, beq_iff_eq] at h
    rcases h with rfl | rfl
    all_goals rfl
  rw [isHeaderOctets, trimmedOctets, List.all_reverse, all_dropWhile hgap, List.all_reverse,
    all_dropWhile hgap, isHeaderOctets]

/-! ## Responses -/

/-- Status and headers of a response that can be read: the status is its last, and the headers may
travel. -/
structure Response.HasHead (r : Response) : Prop where
  status : r.status = 101 ∨ 200 ≤ r.status ∧ r.status ≤ 999
  count : r.headers.length ≤ headerLimit
  headers : ∀ h ∈ r.headers, isHeaderName h.1.toList = true ∧ isHeaderOctets h.2 = true

/-- A response that comes in full: its head can be read, and it holds something that does not end too
early. -/
structure Response.IsComplete (method : String) (r : Response) : Prop extends r.HasHead where
  body : ∃ content, r.Carries method content

theorem isReadable_normalised_iff : r.normalised.isReadable = true ↔ r.HasHead := by
  have hcount : r.normalised.headers.length = r.headers.length := List.length_map _
  have hheaders : (r.normalised.headers.all fun h => isHeaderName h.1.toList && isHeaderOctets h.2) =
      r.headers.all fun h => isHeaderName h.1.toList && isHeaderOctets h.2 := by
    simp [Response.normalised, Function.comp_def, isHeaderName_lowered, isHeaderOctets_trimmedOctets]
  have hstatus : r.normalised.status = r.status := rfl
  rw [Response.isReadable, hcount, hheaders, hstatus]
  simp only [isInterim, Bool.and_eq_true, Bool.not_eq_true', Bool.and_eq_false_iff, decide_eq_true_eq,
    decide_eq_false_iff_not, List.all_eq_true]
  constructor
  · rintro ⟨⟨⟨⟨hlow, hhigh⟩, hlast⟩, hcount⟩, hheaders⟩
    exact ⟨by omega, hcount, hheaders⟩
  · rintro ⟨hlast, hcount, hheaders⟩
    exact ⟨⟨⟨⟨by omega, by omega⟩, by omega⟩, hcount⟩, hheaders⟩

theorem response_of_received (h : r.received method = some arrival) :
    arrival.response = { r.normalised with body := arrival.response.body } := by
  unfold Response.received at h
  simp only at h
  split at h
  · cases h
  · obtain ⟨framing, -, rfl⟩ := Option.map_eq_some_iff.1 h
    rfl

/-- What arrives has the status and the headers of the response. -/
theorem of_received (h : r.received method = some arrival) :
    arrival.response.status = r.status ∧ arrival.response.headers = r.normalised.headers := by
  rw [response_of_received h]
  exact ⟨rfl, rfl⟩

/-- All of a response arrives, with what it holds, just if its head can be read and it holds this. -/
theorem received_eq_some_iff {content : Text.Octets} :
    r.received method = some { response := { r.normalised with body := content }, isWhole := true } ↔
      r.HasHead ∧ r.Carries method content := by
  rw [← isReadable_normalised_iff, carries_iff, Response.received]
  simp only
  split
  next hno => simp [hno]
  next hread =>
    rw [Bool.not_eq_false] at hread
    rw [and_iff_right hread, Option.map_eq_some_iff]
    refine exists_congr fun framing => and_congr_right fun _ => ?_
    have hbody : r.normalised.body = r.body := rfl
    rw [hbody]
    cases framing.content? r.body <;> simp

/-- A response is complete if all of it arrives. -/
theorem isComplete_iff :
    r.IsComplete method ↔ (r.received method).any Arrival.isWhole = true := by
  rw [Option.any_eq_true]
  constructor
  · rintro ⟨hhead, content, hcontent⟩
    exact ⟨_, received_eq_some_iff.2 ⟨hhead, hcontent⟩, rfl⟩
  · rintro ⟨arrival, harrival, hwhole⟩
    have heq : arrival =
        { response := { r.normalised with body := arrival.response.body }, isWhole := true } := by
      rw [← response_of_received harrival, ← hwhole]
    rw [heq] at harrival
    obtain ⟨hhead, hcontent⟩ := received_eq_some_iff.1 harrival
    exact ⟨hhead, _, hcontent⟩

instance (method : String) (r : Response) : Decidable (r.IsComplete method) :=
  decidable_of_iff _ isComplete_iff.symm

example : Response.IsComplete "GET" {
    headers := [("Transfer-Encoding", Text.octets "gzip, Chunked")]
    body := Text.octets "2;x\r\nab\r\n0\r\n\r\n" } := by
  decide +kernel

/-! ## Responses that do not redirect -/

/-- A response that may send the client elsewhere. -/
def Response.Redirects (r : Response) : Prop :=
  r.status ∈ [301, 302, 303, 307, 308] ∧ ∃ h ∈ r.headers, lowered h.1 = "location"

theorem redirection?_eq_none [Url.Idna] (h : ¬ r.Redirects) (hreceived : r.received method = some arrival)
    (o : Outgoing) : redirection? o arrival.response = none := by
  obtain ⟨hstatus, hheaders⟩ := of_received hreceived
  unfold redirection?
  split
  next hmem =>
    rw [hstatus] at hmem
    have hnone : arrival.response.values "location" = [] := by
      rw [Response.values, hheaders, List.map_eq_nil_iff, List.filter_eq_nil_iff]
      intro line hline hname
      obtain ⟨header, hheader, rfl⟩ := List.mem_map.1 hline
      exact h ⟨hmem, header, hheader, of_decide_eq_true hname⟩
    rw [hnone]
  next => rfl

/-- What comes of a request that is not redirected. -/
def Outgoing.resultOf (o : Outgoing) : Exchange → Result
  | .silent => .silent
  | .dropped => .failed (sendFault o.url)
  | .answered r =>
    match r.received o.method with
    | none => .failed (sendFault o.url)
    | some arrival =>
      if arrival.isWhole then .response arrival.response
      else .failed (.response "error decoding response body")

/-- A single request is sent if its answer does not redirect. -/
theorem send_of_not_redirects [Url.Idna]
    (h : ∀ r, (network.exchange o.request).1 = .answered r → ¬ r.Redirects) (redirections : Nat) :
    send o network redirections =
      (o.resultOf (network.exchange o.request).1, (network.exchange o.request).2) := by
  unfold send Outgoing.resultOf
  split
  next hexchange => rw [hexchange]
  next hexchange => rw [hexchange]
  next r after hexchange =>
    rw [hexchange]
    simp only
    cases hreceived : r.received o.method with
    | none => rfl
    | some arrival =>
      simp only [redirection?_eq_none (h r (by rw [hexchange])) hreceived]
      split <;> rfl

end ActionBook.Http
