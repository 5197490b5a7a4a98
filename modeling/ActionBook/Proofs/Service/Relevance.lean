import ActionBook.Proofs.Service.Dispatch
import ActionBook.Proofs.Service.Lookup

/-!
# `Service.Relevance`: the params that make a difference

A run looks at its params for the last value of each binding key of its action, and for nothing else. So
lists of params that agree on these keys (`Param.AgreeOn`) make for the same call and the same end
(`SameRun`), whatever else is in them and in whatever order it comes.
-/

namespace ActionBook

/-! ## Lists of params that agree -/

namespace Param

variable {params params' : List Param} {keys : TextSet} {k : String}

/-- The last param with a key has the given value. -/
def Last (params : List Param) (key value : String) : Prop :=
  ∃ before after, params = before ++ ⟨key, value⟩ :: after ∧ ∀ p ∈ after, p.key ≠ key

/-- Each of some keys has the same last value in both lists, or is in neither. -/
def AgreeOn (keys : TextSet) (params params' : List Param) : Prop :=
  ∀ k ∈ keys, ∀ value, Last params k value ↔ Last params' k value

theorem last_iff {value : String} : Last params k value ↔ lookup params k = some value :=
  lookup_eq_some_iff.symm

theorem agreeOn_iff : AgreeOn keys params params' ↔ ∀ k ∈ keys, lookup params k = lookup params' k := by
  simp only [AgreeOn, last_iff]
  refine forall₂_congr fun k _ => ⟨fun h => Option.ext h, fun h value => ?_⟩
  rw [h]

/-- The value of a key is that of the last of the params that have the key. -/
theorem lookup_eq_getLast? (params : List Param) (k : String) :
    lookup params k = ((params.filter fun p => p.key = k).getLast?).map value := by
  rw [lookup, List.getLast?_filter]

theorem lookup_congr (h : params.filter (·.key = k) = params'.filter (·.key = k)) :
    lookup params k = lookup params' k := by
  rw [lookup_eq_getLast?, h, ← lookup_eq_getLast?]

/-- A param with another key makes no difference to the value of a key. -/
theorem lookup_of_key_ne {p : Param} (h : p.key ≠ k) (before after : List Param) :
    lookup (before ++ p :: after) k = lookup (before ++ after) k := by
  apply lookup_congr
  rw [List.filter_append, List.filter_append, List.filter_cons_of_neg (by simpa using h)]

/-- Neither does a param with the same key as a later one, whatever the key. -/
theorem lookup_of_repeated {p q : Param} (h : q.key = p.key) (before middle after : List Param)
    (k : String) : lookup (before ++ p :: (middle ++ q :: after)) k =
      lookup (before ++ (middle ++ q :: after)) k := by
  by_cases hk : p.key = k
  · -- the later one is the last of both lists, or has the last one after it
    rw [lookup_eq_getLast?, lookup_eq_getLast?]
    simp only [List.filter_append, List.filter_cons, h, hk, decide_true, if_true,
      List.getLast?_append_cons, ← List.cons_append, ← List.append_assoc]
  · exact lookup_of_key_ne hk before _

end Param

namespace Service

open Operation

variable {World World' : Type} {s : Service World} {t : Service World'} {ledger middle : Ledger}
  {r : RunRequest} {a : Action} {params params' : List Param}

/-! ## Runs that are the same -/

/-- Two requests make for the same run: the same call or the same refusal, the same end of it from
every world, and the same ledger after it. -/
structure SameRun (t : Service World') (ledger : Ledger) (r r' : RunRequest) : Prop where
  call : t.prepare r ledger = t.prepare r' ledger
  result : ∀ world, t.run r world ledger = t.run r' world ledger

/-- Once the call is the same, all else is. -/
theorem SameRun.of_prepare {r' : RunRequest} (h : t.prepare r ledger = t.prepare r' ledger) :
    t.SameRun ledger r r' := by
  refine ⟨h, fun world => ?_⟩
  show (t.prepare r >>= _) ledger = (t.prepare r' >>= _) ledger
  cases hcall : t.prepare r ledger with
  | ok call middle => rw [bind_of_eq_ok hcall, bind_of_eq_ok (h ▸ hcall)]
  | error e middle => rw [bind_of_eq_error hcall, bind_of_eq_error (h ▸ hcall)]

/-- The call for an action depends on the values of its binding keys only. -/
theorem callFor_congr
    (h : ∀ k ∈ a.template.bindingKeys, Param.lookup params k = Param.lookup params' k) :
    t.callFor a params = t.callFor a params' := by
  unfold callFor
  rw [RequestTemplate.rendered_congr h]

/-- Whether the repository answers or not, what a request is resolved to is its action. -/
theorem subject_of_resolve_eq_ok (h : resolve r ledger = .ok a middle) :
    Subject ledger.store r a := by
  obtain ⟨actionId, action, params⟩ := r
  match actionId, action with
  | some id, some b => nomatch h
  | none, none => nomatch h
  | none, some b =>
    cases h
    exact .inline b params
  | some id, none =>
    obtain ⟨found, l, hfound, h⟩ := bind_eq_ok_iff.1 h
    have hread := (of_ofCall_read_eq_ok hfound).1
    cases found with
    | none => nomatch h
    | some b =>
      cases h
      exact .stored hread.symm

/-- The action of a request says which keys its template has: a stored one because this was computed
when it was stored, one that comes along because it is computed then. -/
theorem Subject.bindingKeys_eq (h : Subject ledger.store r a)
    (hconsistent : ledger.store.Consistent) : a.bindingKeys = a.template.bindingKeys := by
  cases h with
  | stored hstored =>
    rw [← (hconsistent.complete hstored).refreshed]
    rfl
  | inline b params => rfl

theorem sameRun_of_agreeOn (hconsistent : ledger.store.Consistent) {r : RunRequest}
    (h : ∀ a, Subject ledger.store r a → Param.AgreeOn a.bindingKeys r.params params') :
    t.SameRun ledger r { r with params := params' } := by
  apply SameRun.of_prepare
  -- the params have no part in finding the action, so both requests are about the same one
  have hresolve : resolve { r with params := params' } ledger = resolve r ledger := rfl
  show (resolve r >>= _) ledger = (resolve { r with params := params' } >>= _) ledger
  cases hsubject : resolve r ledger with
  | error e middle => rw [bind_of_eq_error hsubject, bind_of_eq_error (hresolve.trans hsubject)]
  | ok a middle =>
    have subject := subject_of_resolve_eq_ok hsubject
    have hkeys : ∀ k ∈ a.template.bindingKeys,
        Param.lookup r.params k = Param.lookup params' k := by
      intro k hk
      rw [← subject.bindingKeys_eq hconsistent] at hk
      exact Param.agreeOn_iff.1 (h a subject) k hk
    rw [bind_of_eq_ok hsubject, bind_of_eq_ok (hresolve.trans hsubject)]
    simp only [callFor_congr hkeys]

/-! ## The main statement -/

/-- Params make a difference to a run by the last values of the binding keys of its action only. In
every state that requests lead to, whether the repository answers or not, two lists of params that
agree on these keys make for the same run. So it makes no difference to leave out a param whose key is
none of them, to put the params in another order in which those of one key keep theirs, or to leave out
a param with the key of a later one. -/
theorem only_referenced_params_matter (t : Service World') (hreach : s.Reachable ledger)
    (r : RunRequest) :
    (∀ params', (∀ a, Subject ledger.store r a → Param.AgreeOn a.bindingKeys r.params params') →
      t.SameRun ledger r { r with params := params' }) ∧
    (∀ before p after, r.params = before ++ p :: after →
      (∀ a, Subject ledger.store r a → p.key ∉ a.bindingKeys) →
      t.SameRun ledger r { r with params := before ++ after }) ∧
    (∀ params', (∀ k, params'.filter (·.key = k) = r.params.filter (·.key = k)) →
      t.SameRun ledger r { r with params := params' }) ∧
    ∀ before p middle q after, r.params = before ++ p :: (middle ++ q :: after) → q.key = p.key →
      t.SameRun ledger r { r with params := before ++ (middle ++ q :: after) } := by
  have hagree (params' : List Param)
      (h : ∀ a, Subject ledger.store r a → ∀ k ∈ a.bindingKeys,
        Param.lookup r.params k = Param.lookup params' k) :
      t.SameRun ledger r { r with params := params' } :=
    sameRun_of_agreeOn hreach.consistent fun a ha => Param.agreeOn_iff.2 (h a ha)
  refine ⟨fun params' => sameRun_of_agreeOn hreach.consistent, ?unreferenced, ?reordered,
    ?repeated⟩
  case unreferenced =>
    intro before p after hparams hkey
    refine hagree _ fun a ha k hk => ?_
    rw [hparams]
    apply Param.lookup_of_key_ne
    intro hpk
    exact hkey a ha (hpk ▸ hk)
  case reordered =>
    intro params' hsame
    exact hagree _ fun a _ k _ => Param.lookup_congr (hsame k).symm
  case repeated =>
    intro before p middle q after hparams hkey
    refine hagree _ fun a _ k _ => ?_
    rw [hparams]
    exact Param.lookup_of_repeated hkey before middle after k

/-- A param that is not asked for and an earlier one of the key that is make no difference to the run of
the stored action, which is called with the last value. -/
theorem only_referenced_params_matter_echo :
    let r : RunRequest := { actionId := some ⟨"1"⟩, params := [⟨"user", "7"⟩] }
    let r' : RunRequest := { r with params := [⟨"user", "1"⟩, ⟨"page", "2"⟩, ⟨"user", "7"⟩] }
    echoService.Reachable echoLedger ∧
    (∀ a, Subject echoLedger.store r a → Param.AgreeOn a.bindingKeys r.params r'.params) ∧
    echoService.SameRun echoLedger r r' ∧
    ((echoService.prepare r').outcome echoLedger).toOption.map (·.template.path) =
      some "/users/7" := by
  intro r r'
  have hreach : echoService.Reachable echoLedger := reachable_history _ _
  have hagree : ∀ a, Subject echoLedger.store r a →
      Param.AgreeOn a.bindingKeys r.params r'.params := by
    intro a ha
    have hstored : echoLedger.store.find? ⟨"1"⟩ =
        some (echoService.completed {} none echoAction) := rfl
    have hkeys : (echoService.completed {} none echoAction).bindingKeys = .ofList ["user"] := by
      decide +kernel
    have ha : Subject echoLedger.store ⟨some ⟨"1"⟩, none, [⟨"user", "7"⟩]⟩ a := ha
    cases ha with
    | stored hfound =>
      rw [hstored] at hfound
      cases hfound
      rw [hkeys, Param.agreeOn_iff]
      intro k hk
      have hk : k = "user" := by simpa using hk
      subst hk
      decide +kernel
  have hsame := (only_referenced_params_matter echoService hreach r).1 r'.params hagree
  exact ⟨hreach, hagree, hsame, by decide +kernel⟩

end Service

end ActionBook
