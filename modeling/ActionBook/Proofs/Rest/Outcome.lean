import ActionBook.Proofs.Http.Receiving
import ActionBook.Proofs.Rest.Joining
import ActionBook.Rest.Executor

/-!
# `Rest.Outcome`: what comes of a run

A run sends one request, unless an answer redirects it, or none: what cannot be sent is a fault of the
configuration, and nothing else is (`outcome_of_script`). What comes of a request that has been sent is
decided by the answer to it (`Classifies`).
-/

namespace ActionBook.Rest

variable {d : Datasource} {t : RequestTemplate} {outgoing : Http.Outgoing} {sent : SentRequest}

/-! ## Requests that cannot be sent -/

/-- The method of a template as it is sent. -/
def sentMethod (t : RequestTemplate) : List Char := (Text.trim t.method.toList).map Char.toUpper

/-- What keeps the request of a template from being sent. -/
inductive Unsendable [Url.Idna] (d : Datasource) (t : RequestTemplate) : Prop where
  /-- The method is no token. -/
  | method (h : Http.isToken (sentMethod t) = false)
  /-- There is no address, or it is under another scheme. -/
  | address (h : ∀ u, Url.parse (join d.url.toList t.path.toList) = .ok u →
      u.scheme ∉ Http.spokenSchemes)
  /-- A character of the host does not travel. -/
  | host (u : Url) (hurl : url d.url t.path t.query = .ok u) (c : Char) (hc : c ∈ u.writeHost)
      (h : Http.isHostChar c = false)
  /-- The address is too long. -/
  | length (u : Url) (hurl : url d.url t.path t.query = .ok u)
      (h : Http.targetLimit ≤ (Http.sentUrl u).write.length)
  /-- The name of a header is no token. -/
  | name (header : Property) (hmem : header ∈ mergedHeaders d.headers t.headers)
      (h : Http.isToken header.key.toList = false)
  /-- The name of a header is too long. -/
  | nameLength (header : Property) (hmem : header ∈ mergedHeaders d.headers t.headers)
      (h : Http.nameLimit ≤ header.key.toList.length)
  /-- The value of a header has a control in it that is no tab. -/
  | value (header : Property) (hmem : header ∈ mergedHeaders d.headers t.headers) (c : Char)
      (hc : c ∈ header.value.toList) (htab : c ≠ '\t') (h : c.toNat < 0x20 ∨ c.toNat = 0x7F)

theorem code_of_request_eq_error [Url.Idna] {e : PluginError} (h : request d t = .error e) :
    e.code = "PE-CONFIG" := by
  simp only [request, bind, Except.bind, pure, Except.pure] at h
  split at h
  next hmethod =>
    cases h
    unfold method at hmethod
    simp only at hmethod
    split at hmethod
    · cases hmethod
    · cases hmethod
      rfl
  · split at h
    next hurl =>
      cases h
      unfold url at hurl
      simp only at hurl
      split at hurl
      · cases hurl
        rfl
      · cases hurl
    · split at h
      next houtgoing =>
        cases h
        exact Http.code_of_outgoing_eq_error houtgoing
      · cases h

/-- The parts that the request of a template is made of. -/
theorem request_eq_ok_iff [Url.Idna] :
    request d t = .ok (outgoing, sent) ↔ Http.isToken (sentMethod t) = true ∧
      ∃ u, url d.url t.path t.query = .ok u ∧
        Http.outgoing (String.ofList (sentMethod t)) u (mergedHeaders d.headers t.headers)
          (t.body.filter fun b => !b.isEmpty) = .ok outgoing ∧
        sent = { method := String.ofList (sentMethod t), url := u.text,
                 headers := mergedHeaders d.headers t.headers,
                 body := t.body.filter fun b => !b.isEmpty } := by
  constructor
  · intro h
    simp only [request, bind, Except.bind, pure, Except.pure] at h
    split at h
    · cases h
    next token hmethod =>
      split at h
      · cases h
      next u hurl =>
        split at h
        · cases h
        next houtgoing =>
          cases h
          unfold method at hmethod
          simp only at hmethod
          split at hmethod
          next htoken =>
            cases hmethod
            exact ⟨htoken, u, hurl, houtgoing, rfl⟩
          · cases hmethod
  · rintro ⟨htoken, u, hurl, houtgoing, rfl⟩
    have hmethod : method t.method = .ok (String.ofList (sentMethod t)) := if_pos htoken
    simp only [request, hmethod, hurl, houtgoing, bind, Except.bind, pure, Except.pure]

theorem exists_url_of_not_unsendable [Url.Idna] (h : ¬ Unsendable d t) :
    ∃ u, url d.url t.path t.query = .ok u ∧ u.writeHost ≠ [] ∧
      Http.isSendable (Http.sentUrl u) = true := by
  obtain ⟨joined, hparse, hscheme⟩ : ∃ joined,
      Url.parse (join d.url.toList t.path.toList) = .ok joined ∧
        joined.scheme ∈ Http.spokenSchemes := by
    by_contra hno
    exact h (.address fun u hu hspoken => hno ⟨u, hu, hspoken⟩)
  obtain ⟨hspecial, hfile⟩ := isSpecial_of_spoken hscheme
  -- the query does not matter to the host
  have hhost : joined.writeHost ≠ [] := Url.writeHost_ne_nil hparse hspecial hfile
  have hurl := url_of_parse hparse t.query
  refine ⟨_, hurl, hhost, Http.isSendable_sentUrl_iff.2 ⟨hscheme, fun c hc => ?_, ?_⟩⟩
  · by_contra hno
    exact h (.host _ hurl c hc (eq_false_of_ne_true hno))
  · by_contra hno
    exact h (.length _ hurl (Nat.le_of_not_lt hno))

theorem isHeader_of_not_unsendable [Url.Idna] (h : ¬ Unsendable d t) :
    ∀ header ∈ mergedHeaders d.headers t.headers,
      Http.isHeaderName header.key.toList = true ∧
        Http.isHeaderValue header.value.toList = true := by
  intro header hmem
  constructor
  · rw [Http.isHeaderName_iff]
    constructor
    · by_contra hno
      exact h (.name header hmem (eq_false_of_ne_true hno))
    · by_contra hno
      exact h (.nameLength header hmem (Nat.le_of_not_lt hno))
  · rw [Http.isHeaderValue_iff]
    intro c hc
    by_contra hno
    obtain ⟨htab, hno⟩ := not_or.1 hno
    exact h (.value header hmem c hc htab (by omega))

/-- There is a request to send just if nothing keeps it from being sent. -/
theorem exists_request_eq_ok_iff [Url.Idna] :
    (∃ outgoing sent, request d t = .ok (outgoing, sent)) ↔ ¬ Unsendable d t := by
  simp only [request_eq_ok_iff]
  constructor
  · rintro ⟨outgoing, sent, htoken, u, hurl, houtgoing, -⟩
    obtain ⟨-, hsendable, hheaders⟩ := Http.exists_outgoing_eq_ok_iff.1 ⟨_, houtgoing⟩
    obtain ⟨hscheme, hchars, hlength⟩ := Http.isSendable_sentUrl_iff.1 hsendable
    -- one check for each reason
    rintro (hno | hno | ⟨u', hurl', c, hc, hno⟩ | ⟨u', hurl', hno⟩ | ⟨header, hmem, hno⟩ |
      ⟨header, hmem, hno⟩ | ⟨header, hmem, c, hc, htab, hno⟩)
    · rw [htoken] at hno
      cases hno
    · obtain ⟨joined, hparse, hjoined⟩ := exists_parse_of_url hurl
      rw [hjoined] at hscheme
      exact hno joined hparse hscheme
    · obtain rfl := Except.ok.inj (hurl.symm.trans hurl')
      rw [hchars c hc] at hno
      cases hno
    · obtain rfl := Except.ok.inj (hurl.symm.trans hurl')
      omega
    · have hname := (Http.isHeaderName_iff.1 (hheaders header hmem).1).1
      rw [hno] at hname
      cases hname
    · have hname := (Http.isHeaderName_iff.1 (hheaders header hmem).1).2
      omega
    · have hvalue := Http.isHeaderValue_iff.1 (hheaders header hmem).2 c hc
      have hrest := hvalue.resolve_left htab
      omega
  · intro h
    have htoken : Http.isToken (sentMethod t) = true := by
      by_contra hno
      exact h (.method (eq_false_of_ne_true hno))
    obtain ⟨u, hurl, hhost, hsendable⟩ := exists_url_of_not_unsendable h
    obtain ⟨outgoing, houtgoing⟩ := Http.exists_outgoing_eq_ok_iff.2
      ⟨by rwa [Http.writeHost_sentUrl], hsendable, isHeader_of_not_unsendable h⟩
    exact ⟨outgoing, _, htoken, u, hurl, houtgoing, rfl⟩

/-! ## Answers -/

/-- What a reply makes of the answer to a request with the method. The result of a response that comes in
full has its status, and its body is made of what the response holds. -/
def Classifies (method : String) (answer : Http.Exchange) (reply : Reply) : Prop :=
  match answer with
  | .silent => reply.delay = none
  | .dropped => ∃ e, reply = { outcome := .error e, delay := some exchangeTime } ∧
      e.code = "PE-CONNECTION"
  | .answered r =>
    (r.IsComplete method → ∃ result content,
      reply = { outcome := .ok result, delay := some exchangeTime } ∧
        result.status = toString r.status ∧
        (result.isSuccess = true ↔ 200 ≤ r.status ∧ r.status ≤ 299) ∧
        r.Carries method content ∧ result.body = bodyValue content (saysJson r.normalised)) ∧
    (¬ r.IsComplete method → ∃ e, reply = { outcome := .error e, delay := some exchangeTime } ∧
      (e.code = "PE-CONNECTION" ∨ e.code = "PE-RESPONSE"))

/-- The first answer of a script; without any, it is an empty response. -/
def firstAnswer (answers : List Http.Exchange) : Http.Exchange := answers.head?.getD (.answered {})

/-- The reply that tells what has come of a request. -/
def replyTo (outgoing : Http.Outgoing) (sent : SentRequest) : Http.Result → Reply
  | .response r => { outcome := .ok (result r sent), delay := some exchangeTime }
  | .failed e => { outcome := .error e, delay := some exchangeTime }
  | .silent => { outcome := .error (Http.sendFault outgoing.url), delay := none }

theorem executor_eq [Url.Idna] (h : request d t = .ok (outgoing, sent)) (network : Http.Network) :
    executor d t network =
      (replyTo outgoing sent (Http.send outgoing network Http.redirectionLimit).1,
        (Http.send outgoing network Http.redirectionLimit).2) := by
  unfold executor
  rw [h]
  simp only
  split
  next hsend => rw [hsend]; rfl
  next hsend => rw [hsend]; rfl
  next hsend => rw [hsend]; rfl

theorem classifies_replyTo (outgoing : Http.Outgoing) (sent : SentRequest) (answer : Http.Exchange) :
    Classifies outgoing.method answer (replyTo outgoing sent (outgoing.resultOf answer)) := by
  cases answer with
  | silent => exact rfl
  | dropped => exact ⟨_, rfl, rfl⟩
  | answered r =>
    simp only [Classifies, Http.Outgoing.resultOf]
    constructor
    · rintro ⟨hhead, content, hcontent⟩
      have hreceived := Http.received_eq_some_iff.2 ⟨hhead, hcontent⟩
      simp only [hreceived, if_true]
      refine ⟨_, content, rfl, rfl, ?_, hcontent, rfl⟩
      show isSuccess r.status = true ↔ _
      simp [isSuccess]
    · intro hpart
      rw [Http.isComplete_iff] at hpart
      cases hreceived : r.received outgoing.method with
      | none => exact ⟨_, rfl, .inl rfl⟩
      | some arrival =>
        rw [hreceived, Option.any_some] at hpart
        simp only [if_neg hpart]
        exact ⟨_, rfl, .inr rfl⟩

/-- No answer shows a fault of the configuration. -/
theorem code_of_replyTo {answer : Http.Exchange} {e : PluginError}
    (h : (replyTo outgoing sent (outgoing.resultOf answer)).outcome = .error e) :
    e.code ≠ "PE-CONFIG" := by
  cases answer with
  | silent =>
    cases h
    simp [PluginError.code, Http.sendFault]
  | dropped =>
    cases h
    simp [PluginError.code, Http.sendFault]
  | answered r =>
    simp only [Http.Outgoing.resultOf] at h
    split at h
    · cases h
      simp [PluginError.code, Http.sendFault]
    · split at h
      · cases h
      · cases h
        simp [PluginError.code]

/-! ## Runs -/

theorem exchange_scripted (answers : List Http.Exchange) (seen : List Http.Request)
    (r : Http.Request) :
    ∃ after, Http.Network.exchange { server := .scripted answers, seen } r =
        (firstAnswer answers, after) ∧ after.seen = seen ++ [r] := by
  rcases answers with _ | ⟨next, _ | ⟨other, rest⟩⟩
  all_goals exact ⟨_, rfl, rfl⟩

/-- Of a run whose answers do not redirect, at most one request is sent. None is sent just if something
keeps it from being sent, such as a bad method, address or header, and just then the configuration is at
fault; otherwise the first answer of the script decides. -/
theorem outcome_of_script [Url.Idna] (d : Datasource) (t : RequestTemplate) {answers : List Http.Exchange}
    (hscript : ∀ r, .answered r ∈ answers → ¬ r.Redirects) (seen : List Http.Request) :
    ∃ reply after, executor d t { server := .scripted answers, seen } = (reply, after) ∧
      (after.seen = seen ∨ ∃ request, after.seen = seen ++ [request]) ∧
      ((∃ e, reply.outcome = .error e ∧ e.code = "PE-CONFIG") ↔ after.seen = seen) ∧
      (Unsendable d t ↔ after.seen = seen) ∧
      (after.seen ≠ seen →
        Classifies (String.ofList (sentMethod t)) (firstAnswer answers) reply) := by
  cases hrequest : request d t with
  | error e =>
    have hunsendable : Unsendable d t := by
      by_contra hno
      obtain ⟨outgoing, sent, hok⟩ := exists_request_eq_ok_iff.2 hno
      rw [hrequest] at hok
      cases hok
    refine ⟨{ outcome := .error e, delay := some 0 }, { server := .scripted answers, seen }, ?_, .inl rfl,
      iff_of_true ⟨e, rfl, code_of_request_eq_error hrequest⟩ rfl, iff_of_true hunsendable rfl,
      absurd rfl⟩
    simp only [executor, hrequest]
  | ok pair =>
    obtain ⟨outgoing, sent⟩ := pair
    have hsendable : ¬ Unsendable d t := exists_request_eq_ok_iff.1 ⟨outgoing, sent, hrequest⟩
    obtain ⟨-, u, -, houtgoing, -⟩ := request_eq_ok_iff.1 hrequest
    obtain ⟨hmethod, -⟩ := Http.of_outgoing_eq_ok houtgoing
    obtain ⟨after, hexchange, hafter⟩ := exchange_scripted answers seen outgoing.request
    have hfirst : ∀ r, firstAnswer answers = .answered r → ¬ r.Redirects := by
      intro r hr
      rcases answers with _ | ⟨next, rest⟩
      · -- the empty response does not redirect
        cases hr
        rintro ⟨hstatus, -⟩
        exact absurd hstatus (by decide)
      · exact hscript r (by rw [← hr]; exact List.mem_cons_self)
    have hsend := Http.send_of_not_redirects
      (fun r hr => hfirst r (by rwa [hexchange] at hr)) Http.redirectionLimit
    rw [hexchange] at hsend
    have hnew : after.seen ≠ seen := by simp [hafter]
    refine ⟨_, after, (executor_eq hrequest _).trans (by rw [hsend]), .inr ⟨_, hafter⟩, ?_,
      iff_of_false hsendable hnew, fun _ => ?_⟩
    · exact iff_of_false (fun ⟨e, he, hcode⟩ => code_of_replyTo he hcode) hnew
    · rw [← hmethod]
      exact classifies_replyTo outgoing sent (firstAnswer answers)

/-- A request that is answered in chunks: nothing is found, but the response comes in full. -/
theorem outcome_of_script_not_found :
    let d : Datasource := ⟨"api", "http://api.test/v1", [⟨"X-Env", "dev"⟩]⟩
    let t : RequestTemplate := { method := " get ", path := "/users" }
    let r : Http.Response := {
      status := 404
      headers := [("Transfer-Encoding", Text.octets "chunked")]
      body := Text.octets "4\r\ngone\r\n0\r\n\r\n" }
    let answers : List Http.Exchange := [.answered r, .dropped]
    (∀ r', .answered r' ∈ answers → ¬ r'.Redirects) ∧
      ∃ result after request,
        executor d t { server := .scripted answers } =
            ({ outcome := .ok result, delay := some exchangeTime }, after) ∧
          after.seen = [request] ∧ result.status = "404" ∧ result.isSuccess = false := by
  intro d t r answers
  have hscript : ∀ r', .answered r' ∈ answers → ¬ r'.Redirects := by
    intro r' hr
    simp only [answers, List.mem_cons, Http.Exchange.answered.injEq, reduceCtorEq, List.not_mem_nil,
      or_false] at hr
    rintro ⟨hstatus, -⟩
    rw [hr] at hstatus
    exact absurd hstatus (by decide)
  have hsent : (executor d t { server := .scripted answers }).2.seen ≠ [] := by decide +kernel
  have hcomplete : r.IsComplete (String.ofList (sentMethod t)) := by decide +kernel
  obtain ⟨reply, after, hrun, hseen, -, -, hanswer⟩ := outcome_of_script d t hscript []
  rw [hrun] at hsent
  obtain ⟨request, hrequest⟩ := hseen.resolve_left hsent
  obtain ⟨result, -, hreply, hstatus, hsuccess, -⟩ := (hanswer hsent).1 hcomplete
  rw [hreply] at hrun
  have hdecimal : toString 404 = "404" := by decide
  refine ⟨hscript, result, after, request, hrun, hrequest, hstatus.trans hdecimal, ?_⟩
  rw [← Bool.not_eq_true, hsuccess]
  decide

end ActionBook.Rest
