import ActionBook.Proofs.Service.Running

/-!
# `Service.Dispatch`: what comes of a run, in all cases

A run is refused for the first of a fixed order of reasons (`Refused`), none of which looks further
at executors than at the plugins that have one; or it is granted one call (`Granted`), and then ends
as this call does (`PluginCall.Ends`). The main statement says that these are all cases and that
they are what a run does (`run_refused_or_called_once`).
-/

namespace ActionBook

/-! ## Registries -/

namespace Registry

variable {World : Type} {registrations : List (String × Executor World)} {plugin other : String}
  {e : Executor World}

/-- The registry that some registrations lead to, one after the other. -/
def ofRegistrations (registrations : List (String × Executor World)) : Registry World :=
  registrations.foldl (fun r (plugin, e) => r.register plugin e) {}

/-- The last of some registrations for a plugin is that of an executor. -/
def LastFor (registrations : List (String × Executor World)) (plugin : String)
    (e : Executor World) : Prop :=
  ∃ before after, registrations = before ++ (plugin, e) :: after ∧ ∀ x ∈ after, x.1 ≠ plugin

theorem find?_register (r : Registry World) :
    (r.register plugin e).find? other = if other = plugin then some e else r.find? other := by
  unfold register find?
  rw [List.lookup_cons]
  by_cases h : other = plugin
  · simp [h]
  · rw [if_neg h, beq_false_of_ne h]
    -- what is registered for other plugins stays
    induction r.executors with
    | nil => rfl
    | cons x rest ih =>
      obtain ⟨name, e'⟩ := x
      by_cases hname : name = plugin
      · subst hname
        simpa [List.lookup_cons, beq_false_of_ne h] using ih
      · simp only [ne_eq, hname, not_false_eq_true, decide_true, List.filter_cons_of_pos,
          List.lookup_cons]
        cases other == name with
        | true => rfl
        | false => exact ih

theorem lastFor_cons_iff {x : String × Executor World} :
    LastFor (x :: registrations) plugin e ↔
      LastFor registrations plugin e ∨ x = (plugin, e) ∧ ∀ y ∈ registrations, y.1 ≠ plugin := by
  constructor
  · rintro ⟨before, after, heq, hafter⟩
    rcases List.cons_eq_append_iff.1 heq with ⟨-, hx⟩ | ⟨before, -, hrest⟩
    · obtain ⟨rfl, rfl⟩ := List.cons.inj hx
      exact .inr ⟨rfl, hafter⟩
    · exact .inl ⟨before, after, hrest, hafter⟩
  · rintro (⟨before, after, rfl, hafter⟩ | ⟨rfl, hnone⟩)
    · exact ⟨x :: before, after, rfl, hafter⟩
    · exact ⟨[], registrations, rfl, hnone⟩

theorem find?_foldl_register (r : Registry World) :
    (registrations.foldl (fun r (plugin, e) => r.register plugin e) r).find? plugin = some e ↔
      LastFor registrations plugin e ∨
        r.find? plugin = some e ∧ ∀ x ∈ registrations, x.1 ≠ plugin := by
  induction registrations generalizing r with
  | nil => simp [LastFor]
  | cons x rest ih =>
    obtain ⟨name, e'⟩ := x
    rw [List.foldl_cons, ih, lastFor_cons_iff, find?_register]
    by_cases h : plugin = name
    · subst h
      simp
    · simp [h, Ne.symm h]

/-- The last registration for a plugin wins. -/
theorem find?_ofRegistrations_eq_some_iff :
    (ofRegistrations registrations).find? plugin = some e ↔ LastFor registrations plugin e := by
  have hempty : ({} : Registry World).find? plugin ≠ some e := nofun
  rw [ofRegistrations, find?_foldl_register]
  simp [hempty]

theorem exists_lastFor_iff :
    (∃ e, LastFor registrations plugin e) ↔ plugin ∈ registrations.map Prod.fst := by
  induction registrations with
  | nil => simp [LastFor]
  | cons x rest ih =>
    simp only [lastFor_cons_iff, exists_or, ih, List.map_cons, List.mem_cons]
    by_cases h : plugin ∈ rest.map Prod.fst
    · simp [h]
    · have hrest : ∀ y ∈ rest, y.1 ≠ plugin := fun y hy heq => h (heq ▸ List.mem_map_of_mem hy)
      constructor
      · rintro (hmem | ⟨e, rfl, -⟩)
        · exact .inr hmem
        · exact .inl rfl
      · rintro (rfl | hmem)
        · exact .inr ⟨x.2, rfl, hrest⟩
        · exact .inl hmem

theorem find?_ofRegistrations_eq_none_iff :
    (ofRegistrations registrations).find? plugin = none ↔
      plugin ∉ registrations.map Prod.fst := by
  rw [← exists_lastFor_iff, not_exists, Option.eq_none_iff_forall_ne_some]
  exact forall_congr' fun e => not_congr find?_ofRegistrations_eq_some_iff

end Registry

/-! ## Ends of calls -/

/-- What comes of a call that may take `limit` milliseconds and is replied to in a given way. -/
inductive PluginCall.Ends (limit : UInt64) (reply : Reply) : RunResult → Prop where
  /-- The executor has a result in time. It is kept, and it gets the time that the call took. -/
  | answered {delay : Nat} {result : RunResult} (delayed : reply.delay = some delay)
      (inTime : delay ≤ limit.toNat) (outcome : reply.outcome = .ok result) :
    Ends limit reply { result with duration := .ofNat delay }
  /-- The executor has an error in time, of which the code and the message are kept. -/
  | failed {delay : Nat} {e : PluginError} (delayed : reply.delay = some delay)
      (inTime : delay ≤ limit.toNat) (outcome : reply.outcome = .error e) :
    Ends limit reply { RunResult.failure e.code e.message with duration := .ofNat delay }
  /-- There is no reply in time. -/
  | timedOut (late : ∀ delay, reply.delay = some delay → limit.toNat < delay) :
    Ends limit reply
      { RunResult.failure "PE-TIMEOUT" s!"execution timed out after {limit.toNat} ms" with
        duration := limit }

namespace PluginCall

variable {World : Type}

/-- A call asks its executor once, with its own datasource and template, and ends as the reply has
it. -/
theorem ends_run (call : PluginCall World) (default : UInt64) (world : World) :
    Ends (call.limit default) (call.executor call.datasource call.template world).1
        (call.run default world).1 ∧
      (call.run default world).2 = (call.executor call.datasource call.template world).2 := by
  unfold run
  generalize call.executor call.datasource call.template world = answer
  obtain ⟨reply, world'⟩ := answer
  cases hdelay : reply.delay with
  | none =>
    simp only [hdelay, and_true]
    exact .timedOut (by simp [hdelay])
  | some delay =>
    simp only [hdelay]
    by_cases hlate : delay ≤ (call.limit default).toNat
    · rw [if_pos hlate]
      cases houtcome : reply.outcome with
      | ok result => exact ⟨.answered hdelay hlate houtcome, rfl⟩
      | error e => exact ⟨.failed hdelay hlate houtcome, rfl⟩
    -- a reply that comes too late is as good as none
    · rw [if_neg hlate]
      refine ⟨.timedOut fun d hd => ?_, rfl⟩
      rw [hdelay] at hd
      obtain rfl := Option.some.inj hd
      exact Nat.lt_of_not_le hlate

end PluginCall

namespace Service

open Operation

variable {World : Type} {store : Store} {plugins : List String} {r : RunRequest} {a : Action}
  {params : List Param} {e : ActionError} {ledger : Ledger}

/-! ## Actions of requests -/

/-- The action that a request is about: what is stored under the id that it names, or what it brings
along, with its derived fields computed anew. -/
inductive Subject (store : Store) : RunRequest → Action → Prop where
  | stored {id : ActionId} {a : Action} {params : List Param} (h : store.find? id = some a) :
    Subject store { actionId := some id, action := none, params } a
  | inline (a : Action) (params : List Param) :
    Subject store { actionId := none, action := some a, params } a.refreshed

/-- Why a request is about no action. -/
inductive Subjectless (store : Store) : RunRequest → ActionError → Prop where
  | both (id : ActionId) (a : Action) (params : List Param) :
    Subjectless store { actionId := some id, action := some a, params }
      (.invalidParameter "provide either action_id or action, not both")
  | neither (params : List Param) :
    Subjectless store { actionId := none, action := none, params }
      (.invalidParameter "action_id or action is required")
  | unknown {id : ActionId} {params : List Param} (h : store.find? id = none) :
    Subjectless store { actionId := some id, action := none, params } (.unknownId id)

theorem outcome_resolve_eq_ok_iff (hup : ledger.repository.outages.next? .findById = none) :
    (resolve r).outcome ledger = .ok a ↔ Subject ledger.store r a := by
  obtain ⟨actionId, action, params⟩ := r
  constructor
  · intro h
    match actionId, action with
    | some id, some b => nomatch h
    | none, none => nomatch h
    | none, some b =>
      cases h
      exact .inline b params
    | some id, none =>
      have hget : (getById id).outcome ledger = .ok a := h
      rw [outcome_getById hup] at hget
      cases hfind : ledger.store.find? id with
      | none => simp [hfind] at hget
      | some b =>
        rw [hfind, Option.elim_some, Except.ok.injEq] at hget
        exact .stored (hget ▸ hfind)
  · rintro (h | ⟨b, params⟩)
    · exact outcome_resolve_stored hup h
    · rfl

theorem outcome_resolve_eq_error_iff (hup : ledger.repository.outages.next? .findById = none) :
    (resolve r).outcome ledger = .error e ↔ Subjectless ledger.store r e := by
  obtain ⟨actionId, action, params⟩ := r
  constructor
  · intro h
    match actionId, action with
    | some id, some b =>
      cases h
      exact .both id b params
    | none, none =>
      cases h
      exact .neither params
    | none, some b => nomatch h
    | some id, none =>
      have hget : (getById id).outcome ledger = .error e := h
      rw [outcome_getById hup] at hget
      cases hfind : ledger.store.find? id with
      | none =>
        rw [hfind, Option.elim_none, Except.error.injEq] at hget
        exact hget ▸ .unknown hfind
      | some b => simp [hfind] at hget
  · rintro (_ | _ | @⟨id, _, hnone⟩)
    · rfl
    · rfl
    · show (getById id).outcome ledger = _
      rw [outcome_getById hup, hnone, Option.elim_none]

/-! ## Calls for actions -/

/-- Why there is no call for an action, if some plugins have an executor. Each reason supposes that
those before it do not apply. -/
inductive Rejected (plugins : List String) (params : List Param) (a : Action) :
    ActionError → Prop where
  | invalid (h : a.isValid = false ∨ a.datasource = none) :
    Rejected plugins params a (.invalidAction a.name a.invalids)
  | noExecutor (valid : a.isValid = true) (datasource : a.datasource.isSome)
      (h : a.plugin ∉ plugins) : Rejected plugins params a (.pluginNotFound a.plugin)
  | lacking {missing : TextSet} (valid : a.isValid = true) (datasource : a.datasource.isSome)
      (executor : a.plugin ∈ plugins)
      (h : Param.Lacking params a.template.bindingKeys missing) :
    Rejected plugins params a (.unresolvedBindings missing)

/-- The call for an action: it is to the executor registered last for its plugin, with its
datasource and its rendered template. -/
structure CallFor (registrations : List (String × Executor World)) (params : List Param)
    (a : Action) (call : PluginCall World) : Prop where
  valid : a.isValid = true
  datasource : a.datasource = some call.datasource
  executor : Registry.LastFor registrations a.plugin call.executor
  template : a.template.rendered (Param.lookup params) = .ok call.template

section Calls

variable {s : Service World} {registrations : List (String × Executor World)}
  {call : PluginCall World}

theorem callFor_eq_ok_iff (hplugins : s.plugins = .ofRegistrations registrations) :
    s.callFor a params = .ok call ↔ CallFor registrations params a call := by
  unfold callFor
  rw [hplugins]
  constructor
  · intro h
    split at h
    next hvalid =>
      split at h
      · nomatch h
      next datasource hdatasource =>
        split at h
        · nomatch h
        next executor hexecutor =>
          split at h
          · nomatch h
          next template htemplate =>
            cases h
            exact ⟨hvalid, hdatasource, Registry.find?_ofRegistrations_eq_some_iff.1 hexecutor,
              htemplate⟩
    · nomatch h
  · rintro ⟨hvalid, hdatasource, hexecutor, htemplate⟩
    simp only [hvalid, hdatasource, Registry.find?_ofRegistrations_eq_some_iff.2 hexecutor,
      htemplate, if_true]

theorem callFor_eq_error_iff (hplugins : s.plugins = .ofRegistrations registrations) :
    s.callFor a params = .error e ↔ Rejected (registrations.map Prod.fst) params a e := by
  unfold callFor
  rw [hplugins]
  constructor
  · intro h
    split at h
    next hvalid =>
      split at h
      next hdatasource =>
        cases h
        exact .invalid (.inr hdatasource)
      next datasource hdatasource =>
        have hsome : a.datasource.isSome := Option.isSome_of_eq_some hdatasource
        split at h
        next hexecutor =>
          cases h
          exact .noExecutor hvalid hsome (Registry.find?_ofRegistrations_eq_none_iff.1 hexecutor)
        next executor hexecutor =>
          have hmem : a.plugin ∈ registrations.map Prod.fst :=
            Registry.exists_lastFor_iff.1
              ⟨executor, Registry.find?_ofRegistrations_eq_some_iff.1 hexecutor⟩
          split at h
          next missing hmissing =>
            cases h
            exact .lacking hvalid hsome hmem (RequestTemplate.rendered_eq_error_iff.1 hmissing)
          · nomatch h
    next hvalid =>
      cases h
      exact .invalid (.inl (by simpa using hvalid))
  · rintro (hinvalid | ⟨hvalid, hdatasource, hnone⟩ | ⟨hvalid, hdatasource, hmem, hlacking⟩)
    · rcases hinvalid with hinvalid | hnone
      · simp [hinvalid]
      · cases hvalid : a.isValid <;> simp [hnone]
    · obtain ⟨d, hd⟩ := Option.isSome_iff_exists.1 hdatasource
      simp only [hvalid, hd, Registry.find?_ofRegistrations_eq_none_iff.2 hnone, if_true]
    · obtain ⟨d, hd⟩ := Option.isSome_iff_exists.1 hdatasource
      obtain ⟨executor, hlast⟩ := Registry.exists_lastFor_iff.2 hmem
      simp only [hvalid, hd, Registry.find?_ofRegistrations_eq_some_iff.2 hlast,
        RequestTemplate.rendered_eq_error_iff.2 hlacking, if_true]

end Calls

/-! ## Runs -/

/-- Why a run is refused, if some plugins have an executor: for its request, or for the action that
this is about. -/
inductive Refused (store : Store) (plugins : List String) (r : RunRequest) (e : ActionError) :
    Prop where
  | subjectless (h : Subjectless store r e)
  | rejected {a : Action} (subject : Subject store r a) (h : Rejected plugins r.params a e)

/-- The call that a run is granted. -/
structure Granted (store : Store) (registrations : List (String × Executor World))
    (r : RunRequest) (a : Action) (call : PluginCall World) : Prop where
  subject : Subject store r a
  call : CallFor registrations r.params a call

section Runs

variable {s : Service World} {registrations : List (String × Executor World)}
  {call : PluginCall World}

theorem outcome_run_eq_error_iff (hplugins : s.plugins = .ofRegistrations registrations)
    (hup : ledger.repository.outages.next? .findById = none) (world : World) :
    (s.run r world).outcome ledger = .error e ↔
      Refused ledger.store (registrations.map Prod.fst) r e := by
  have hprepare : (s.run r world).outcome ledger = .error e ↔
      ((resolve r).outcome ledger).bind (fun a => s.callFor a r.params) = .error e := by
    rw [outcome_run, outcome_prepare]
    cases ((resolve r).outcome ledger).bind fun a => s.callFor a r.params <;> simp [Except.map]
  rw [hprepare]
  constructor
  · intro h
    cases hresolve : (resolve r).outcome ledger with
    | error e' =>
      rw [hresolve] at h
      cases h
      exact .subjectless ((outcome_resolve_eq_error_iff hup).1 hresolve)
    | ok a =>
      rw [hresolve] at h
      exact .rejected ((outcome_resolve_eq_ok_iff hup).1 hresolve)
        ((callFor_eq_error_iff hplugins).1 h)
  · rintro (h | ⟨subject, h⟩)
    · rw [(outcome_resolve_eq_error_iff hup).2 h]
      rfl
    · rw [(outcome_resolve_eq_ok_iff hup).2 subject]
      exact (callFor_eq_error_iff hplugins).2 h

/-- A run that is granted a call is this call. -/
theorem outcome_run_of_granted (hplugins : s.plugins = .ofRegistrations registrations)
    (hup : ledger.repository.outages.next? .findById = none)
    (h : Granted ledger.store registrations r a call) (world : World) :
    (s.run r world).outcome ledger = .ok (call.run s.defaultTimeout world) := by
  rw [outcome_run, outcome_prepare, (outcome_resolve_eq_ok_iff hup).2 h.subject]
  show Except.map _ (s.callFor a r.params) = _
  rw [(callFor_eq_ok_iff hplugins).2 h.call]
  rfl

theorem refused_or_granted (hplugins : s.plugins = .ofRegistrations registrations)
    (hup : ledger.repository.outages.next? .findById = none) (r : RunRequest) :
    (∃ e, Refused ledger.store (registrations.map Prod.fst) r e) ∨
      ∃ a call, Granted ledger.store registrations r a call := by
  cases hresolve : (resolve r).outcome ledger with
  | error e => exact .inl ⟨e, .subjectless ((outcome_resolve_eq_error_iff hup).1 hresolve)⟩
  | ok a =>
    have subject := (outcome_resolve_eq_ok_iff hup).1 hresolve
    cases hcall : s.callFor a r.params with
    | error e => exact .inl ⟨e, .rejected subject ((callFor_eq_error_iff hplugins).1 hcall)⟩
    | ok call => exact .inr ⟨a, call, subject, (callFor_eq_ok_iff hplugins).1 hcall⟩

end Runs

/-! ## Lists of calls -/

/-- The plugins that executors are called for, with what they are called with. -/
abbrev CallList := List (String × Datasource × RequestTemplate)

/-- An executor of a plugin that also adds each call of it to a list. -/
def listedExecutor (plugin : String) (e : Executor World) : Executor (World × CallList) :=
  fun datasource template (world, calls) =>
    let (reply, world) := e datasource template world
    (reply, (world, calls ++ [(plugin, datasource, template)]))

/-- Registrations of the same executors, each with a list kept of what it is called with. -/
def listedRegistrations (registrations : List (String × Executor World)) :
    List (String × Executor (World × CallList)) :=
  registrations.map fun (plugin, e) => (plugin, listedExecutor plugin e)

/-- The service with some registrations, and a list kept of all calls. -/
def listedService (s : Service World) (registrations : List (String × Executor World)) :
    Service (World × CallList) :=
  { s with plugins := .ofRegistrations (listedRegistrations registrations) }

/-- The call with a list kept of it. -/
def listedCall (plugin : String) (call : PluginCall World) : PluginCall (World × CallList) :=
  { call with executor := listedExecutor plugin call.executor }

section Lists

variable {registrations : List (String × Executor World)} {call : PluginCall World}

theorem run_listedCall (plugin : String) (call : PluginCall World) (default : UInt64)
    (world : World) (calls : CallList) :
    (listedCall plugin call).run default (world, calls) =
      ((call.run default world).1, (call.run default world).2,
        calls ++ [(plugin, call.datasource, call.template)]) := by
  have hanswer : (listedCall plugin call).executor (listedCall plugin call).datasource
      (listedCall plugin call).template (world, calls) =
      ((call.executor call.datasource call.template world).1,
        (call.executor call.datasource call.template world).2,
        calls ++ [(plugin, call.datasource, call.template)]) := rfl
  have hlimit : (listedCall plugin call).limit default = call.limit default := rfl
  unfold PluginCall.run
  rw [hanswer, hlimit]
  -- both calls are replied to in the same way
  generalize call.executor call.datasource call.template world = answer
  obtain ⟨⟨outcome, delay⟩, world'⟩ := answer
  cases delay with
  | none => rfl
  | some delay =>
    simp only
    split
    · cases outcome <;> rfl
    · rfl

theorem Granted.listed (h : Granted store registrations r a call) :
    Granted store (listedRegistrations registrations) r a (listedCall a.plugin call) := by
  obtain ⟨before, after, rfl, hafter⟩ := h.call.executor
  refine ⟨h.subject, h.call.valid, h.call.datasource, ⟨listedRegistrations before,
    listedRegistrations after, by simp [listedRegistrations, listedCall], ?_⟩, h.call.template⟩
  intro x hx
  obtain ⟨y, hy, rfl⟩ := List.mem_map.1 hx
  exact hafter y hy

end Lists

/-! ## The main statement -/

/-- A run comes to what is laid down for it, in this order. If the repository answers: the run fails
just if the request is about no action, or this is invalid, or its plugin has no executor, or some
of its binding keys have no param, with the first of these reasons; that executors have been
registered is all that matters of them then, so that none has been called. In all other cases the
executor registered last for the plugin is called once, with the datasource of the action and its
template, all texts of it rendered, and the run succeeds with the end of this call, in the time that
the action allows or else in the default time. -/
theorem run_refused_or_called_once (s : Service World)
    (registrations : List (String × Executor World)) (ledger : Ledger) (r : RunRequest)
    (hplugins : s.plugins = .ofRegistrations registrations)
    (hup : ledger.repository.outages.next? .findById = none) :
    (∀ e world, (s.run r world).outcome ledger = .error e ↔
      Refused ledger.store (registrations.map Prod.fst) r e) ∧
    ((∃ e, Refused ledger.store (registrations.map Prod.fst) r e) ∨
      ∃ a call, Granted ledger.store registrations r a call) ∧
    ∀ a call, Granted ledger.store registrations r a call →
      a.template.RenderedTo (Param.lookup r.params) call.template ∧
      ∀ world, ∃ result,
        PluginCall.Ends (a.template.timeout.getD s.defaultTimeout)
          (call.executor call.datasource call.template world).1 result ∧
        (s.run r world).outcome ledger =
          .ok (result, (call.executor call.datasource call.template world).2) ∧
        ∀ calls, ((listedService s registrations).run r (world, calls)).outcome ledger =
          .ok (result, (call.executor call.datasource call.template world).2,
            calls ++ [(a.plugin, call.datasource, call.template)]) := by
  refine ⟨fun e world => outcome_run_eq_error_iff hplugins hup world,
    refused_or_granted hplugins hup r, fun a call h => ?_⟩
  have hrendered := RequestTemplate.renderedTo_of_rendered h.call.template
  refine ⟨hrendered, fun world => ⟨(call.run s.defaultTimeout world).1, ?_, ?_, fun calls => ?_⟩⟩
  · have hends := (call.ends_run s.defaultTimeout world).1
    rwa [PluginCall.limit, hrendered.timeout] at hends
  · rw [outcome_run_of_granted hplugins hup h, ← (call.ends_run s.defaultTimeout world).2]
  · rw [outcome_run_of_granted rfl hup h.listed, ← (call.ends_run s.defaultTimeout world).2]
    exact congrArg Except.ok (run_listedCall a.plugin call s.defaultTimeout world calls)

/-- Two registrations for one plugin, the first of an executor that never replies. -/
def echoRegistrations : List (String × Executor Nat) :=
  [("echo", fun _ _ calls => ({ outcome := .error (.connection "refused"), delay := none }, calls)),
    ("echo", fun _ template calls =>
      ({ outcome := .ok
          { status := "200", headers := .null, body := .str template.path, isSuccess := true } },
        calls + 1))]

/-- The stored action is run by the executor registered last, once and with the value filled in;
without the value it is refused. -/
theorem run_refused_or_called_once_echo :
    let s : Service Nat := { echoService with plugins := .ofRegistrations echoRegistrations }
    s.plugins = .ofRegistrations echoRegistrations ∧
    echoLedger.repository.outages.next? .findById = none ∧
    (s.run { actionId := some ⟨"1"⟩ } 0).outcome echoLedger =
      .error (.unresolvedBindings (.ofList ["user"])) ∧
    ∃ result, result.body = .str "/users/7" ∧
      (s.run { actionId := some ⟨"1"⟩, params := [⟨"user", "7"⟩] } 0).outcome echoLedger =
        .ok (result, 1) := by
  intro s
  have hup : echoLedger.repository.outages.next? .findById = none := rfl
  have hstored : echoLedger.store.find? ⟨"1"⟩ =
      some (echoService.completed {} none echoAction) := rfl
  refine ⟨rfl, hup, ?_, ?_⟩
  · obtain ⟨hrefused, -⟩ := run_refused_or_called_once s echoRegistrations echoLedger
      { actionId := some ⟨"1"⟩ } rfl hup
    have hkeys : (echoService.completed {} none echoAction).template.bindingKeys =
        .ofList ["user"] := by decide +kernel
    have hlacking : Param.Lacking [] (echoService.completed {} none echoAction).template.bindingKeys
        (.ofList ["user"]) := by
      rw [hkeys]
      exact ⟨⟨"user", by simp⟩, fun k => by simp⟩
    exact (hrefused _ 0).2 (.rejected (.stored hstored) (.lacking rfl rfl (by decide) hlacking))
  · obtain ⟨-, -, hcalled⟩ := run_refused_or_called_once s echoRegistrations echoLedger
      { actionId := some ⟨"1"⟩, params := [⟨"user", "7"⟩] } rfl hup
    let call : PluginCall Nat := {
      executor := fun _ template calls =>
        ({ outcome := .ok
            { status := "200", headers := .null, body := .str template.path, isSuccess := true } },
          calls + 1)
      datasource := { name := "local", url := "http://localhost" }
      template := { path := "/users/7" } }
    have granted : Granted echoLedger.store echoRegistrations
        { actionId := some ⟨"1"⟩, params := [⟨"user", "7"⟩] }
        (echoService.completed {} none echoAction) call :=
      ⟨.stored hstored, rfl, rfl, ⟨[_], [], rfl, by simp⟩, by decide +kernel⟩
    obtain ⟨-, hworld⟩ := hcalled _ _ granted
    obtain ⟨result, hends, hrun, -⟩ := hworld 0
    refine ⟨result, ?_, hrun⟩
    -- the executor has its result at once
    cases hends with
    | answered _ _ outcome =>
      cases outcome
      rfl
    | failed _ _ outcome => nomatch outcome
    | timedOut late => exact absurd (late 0 rfl) (by simp)

end Service

end ActionBook
