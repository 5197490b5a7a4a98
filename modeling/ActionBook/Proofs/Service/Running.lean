import ActionBook.Proofs.Execution.Rendering
import ActionBook.Proofs.Service.Consistency
import ActionBook.Proofs.Service.Reading

/-!
# `Service.Running`: what a run comes to

A run is its action resolved, the call that is made for it, and what comes of the call
(`outcome_prepare`, `outcome_run`). The call depends on the content of the action and on whether it
is valid (`callFor_refreshed`), and what is stored after a history is as valid as its content makes
it. So nothing but the content of an action matters to its runs, and what a run asks values for is
what the stored action says.
-/

namespace ActionBook

/-- The keys that no param has, of which there is at least one. -/
structure Param.Lacking (params : List Param) (keys missing : TextSet) : Prop where
  nonempty : ∃ k, k ∈ missing
  mem_iff : ∀ k, k ∈ missing ↔ k ∈ keys ∧ ∀ p ∈ params, p.key ≠ k

namespace RequestTemplate

variable {t : RequestTemplate} {params : List Param} {missing : TextSet}

/-- A template is rendered just if each of its binding keys is the key of a param. -/
theorem exists_rendered_eq_ok_iff :
    (∃ t', t.rendered (Param.lookup params) = .ok t') ↔
      ∀ k ∈ t.bindingKeys, ∃ p ∈ params, p.key = k := by
  have hreports := reports_rendered (Param.lookup params) t
  constructor
  · rintro ⟨t', h⟩ k hk
    have hgiven := (hreports.eq_ok_iff.1 h).1 k
    rw [Param.lookup_eq_none_iff] at hgiven
    by_contra hnone
    exact hgiven ⟨hk, fun p hp hkey => hnone ⟨p, hp, hkey⟩⟩
  · intro h
    refine ⟨_, hreports.eq_ok_iff.2 ⟨?_, rfl⟩⟩
    rintro k ⟨hk, hnone⟩
    obtain ⟨p, hp, hkey⟩ := h k hk
    exact Param.lookup_eq_none_iff.1 hnone p hp hkey

/-- Rendering fails with all binding keys that no param has. -/
theorem rendered_eq_error_iff :
    t.rendered (Param.lookup params) = .error missing ↔
      Param.Lacking params t.bindingKeys missing := by
  rw [(reports_rendered (Param.lookup params) t).eq_error_iff]
  simp only [Param.lookup_eq_none_iff]
  constructor
  · rintro ⟨⟨k, hk⟩, hmem⟩
    exact ⟨⟨k, (hmem k).2 hk⟩, hmem⟩
  · rintro ⟨⟨k, hk⟩, hmem⟩
    exact ⟨⟨k, (hmem k).1 hk⟩, hmem⟩

end RequestTemplate

namespace Service

open Operation

variable {World World' : Type} {s : Service World} {t : Service World'} {ledger : Ledger}
  {i : ActionId} {x y : Action} {params : List Param}

/-! ## The parts of a run -/

theorem outcome_prepare (t : Service World') (r : RunRequest) (ledger : Ledger) :
    (t.prepare r).outcome ledger =
      ((resolve r).outcome ledger).bind fun a => t.callFor a r.params := by
  show outcome (resolve r >>= _) ledger = _
  rw [outcome_bind]
  unfold outcome
  cases resolve r ledger with
  | ok a middle =>
    show outcome _ middle = t.callFor a r.params
    cases h : t.callFor a r.params with
    | ok call => rfl
    | error e => rfl
  | error e middle => rfl

theorem outcome_run (t : Service World') (r : RunRequest) (world : World') (ledger : Ledger) :
    (t.run r world).outcome ledger =
      ((t.prepare r).outcome ledger).map fun call => call.run t.defaultTimeout world := by
  show outcome (t.prepare r >>= _) ledger = _
  rw [outcome_bind]
  unfold outcome
  cases t.prepare r ledger with
  | ok call middle => rfl
  | error e middle => rfl

/-- A run of a stored action is a run of what is kept under its id. -/
theorem outcome_resolve_stored (hup : ledger.repository.outages.next? .findById = none)
    (hstored : ledger.store.find? i = some x) :
    (resolve { actionId := some i, params }).outcome ledger = .ok x := by
  show (getById i).outcome ledger = _
  rw [outcome_getById hup, hstored, Option.elim_some]

/-- What is made of an action that comes along depends on its content only: it is what is made of any
action with this content and with derived fields that are up to date. -/
theorem callFor_refreshed (hcontent : x.SameContent y) (hx : x.refreshed = x) :
    t.callFor y.refreshed params = t.callFor x params := by
  -- of the derived fields, a call looks at validity and at the reasons against it
  have hvalid : y.refreshed.isValid = x.isValid := by
    rw [hcontent.isValid_refreshed, hx]
  have hinvalids : y.refreshed.invalids = x.invalids := by
    rw [hcontent.invalids_refreshed, hx]
  have hsame : x.SameContent y.refreshed := hcontent.refreshed
  unfold callFor
  rw [hvalid, hinvalids, hsame.name, hsame.plugin, hsame.datasource, hsame.template]

/-! ## After every history -/

/-- What is stored makes a difference to a run by its content only. If the repository answers, a run by
id and a run of an action with this content, whatever its other fields claim, make the same call or
fail in the same way, and the same comes of them. -/
theorem run_stored_eq_run_inline (s : Service World) (steps : List (Step World))
    (t : Service World') (params : List Param)
    (hup : (s.history steps).repository.outages.next? .findById = none)
    (hstored : (s.history steps).store.find? i = some x) (hcontent : x.SameContent y) :
    (t.prepare { actionId := some i, params }).outcome (s.history steps) =
      (t.prepare { action := some y, params }).outcome (s.history steps) ∧
    ∀ world, (t.run { actionId := some i, params } world).outcome (s.history steps) =
      (t.run { action := some y, params } world).outcome (s.history steps) := by
  have hcomplete := (consistent_history s steps).complete hstored
  have hprepare : (t.prepare { actionId := some i, params }).outcome (s.history steps) =
      (t.prepare { action := some y, params }).outcome (s.history steps) := by
    rw [outcome_prepare, outcome_resolve_stored hup hstored, outcome_prepare]
    show t.callFor x params = t.callFor y.refreshed params
    exact (callFor_refreshed hcontent hcomplete.refreshed).symm
  refine ⟨hprepare, fun world => ?_⟩
  rw [outcome_run, hprepare, outcome_run]

/-- A run of an action as it was stored, which makes its call, and of one that claims to be invalid are
the same. -/
theorem run_stored_eq_run_inline_echo :
    echoLedger.repository.outages.next? .findById = none ∧
    ∃ x, echoLedger.store.find? ⟨"1"⟩ = some x ∧
      x.SameContent { echoAction with isValid := false } ∧
      ((echoService.prepare { actionId := some ⟨"1"⟩, params := [⟨"user", "7"⟩] }).outcome
        echoLedger).toOption.map (·.template.path) = some "/users/7" ∧
      (echoService.run { actionId := some ⟨"1"⟩, params := [⟨"user", "7"⟩] } 0).outcome echoLedger =
        (echoService.run
          { action := some { echoAction with isValid := false }, params := [⟨"user", "7"⟩] }
          0).outcome echoLedger := by
  have hup : echoLedger.repository.outages.next? .findById = none := rfl
  have hstored : echoLedger.store.find? ⟨"1"⟩ =
      some (echoService.completed {} none echoAction) := rfl
  have hcontent : (echoService.completed {} none echoAction).SameContent
      { echoAction with isValid := false } := ⟨rfl, rfl, rfl, rfl⟩
  have hsame := run_stored_eq_run_inline echoService [{ request := .save echoAction }] echoService
    [⟨"user", "7"⟩] hup hstored hcontent
  exact ⟨hup, _, hstored, hcontent, by decide +kernel, hsame.2 0⟩

/-- A template asks for values of just the keys that are advertised for it, all of them together; the
last param with a key gives its value, and with all values every text is rendered on its own. So after
every history, what a run of a valid stored action lacks is what is stored as its binding keys and has
no param. -/
theorem required_keys_are_advertised (c : RequestTemplate) (params : List Param) (s : Service World)
    (steps : List (Step World)) (t : Service World') :
    ((∃ c', c.rendered (Param.lookup params) = .ok c') ↔
      ∀ k ∈ c.bindingKeys, ∃ p ∈ params, p.key = k) ∧
    (∀ missing, c.rendered (Param.lookup params) = .error missing ↔
      Param.Lacking params c.bindingKeys missing) ∧
    (∀ c', c.rendered (Param.lookup params) = .ok c' → c.RenderedTo (Param.lookup params) c') ∧
    (∀ key value, Param.lookup params key = some value ↔
      ∃ before after, params = before ++ ⟨key, value⟩ :: after ∧ ∀ p ∈ after, p.key ≠ key) ∧
    ∀ i x executor, (s.history steps).repository.outages.next? .findById = none →
      (s.history steps).store.find? i = some x → x.isValid →
      t.plugins.find? x.plugin = some executor → ∀ missing world,
        (t.run { actionId := some i, params } world).outcome (s.history steps) =
            .error (.unresolvedBindings missing) ↔
          Param.Lacking params x.bindingKeys missing := by
  refine ⟨RequestTemplate.exists_rendered_eq_ok_iff, fun _ => RequestTemplate.rendered_eq_error_iff,
    fun _ => RequestTemplate.renderedTo_of_rendered, fun _ _ => Param.lookup_eq_some_iff, ?_⟩
  intro i x executor hup hstored hvalid hexecutor missing world
  have hcomplete := (consistent_history s steps).complete hstored
  have hderives : x.Derives := Action.derives_iff.2 hcomplete.refreshed
  obtain ⟨d, hd⟩ := Option.isSome_iff_exists.1 (hderives.isSome_datasource hvalid)
  have hkeys : x.bindingKeys = x.template.bindingKeys := by
    rw [← hcomplete.refreshed]
    rfl
  rw [hkeys, ← RequestTemplate.rendered_eq_error_iff, outcome_run, outcome_prepare,
    outcome_resolve_stored hup hstored]
  show (t.callFor x params).map _ = _ ↔ _
  -- validity, datasource and executor are given, so that rendering is all that can fail
  unfold callFor
  simp only [hvalid, hd, hexecutor, if_true]
  cases x.template.rendered (Param.lookup params) with
  | ok c' => simp [Except.map]
  | error others => simp [Except.map]

/-- Without a value for its only key, the stored action cannot be run. -/
example : (match (echoService.run { actionId := some ⟨"1"⟩ } 0).outcome echoLedger with
    | .ok _ => none
    | .error e => some e) = some (.unresolvedBindings (.ofList ["user"])) := by decide +kernel

end Service

end ActionBook
