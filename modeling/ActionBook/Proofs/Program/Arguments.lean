import ActionBook.Proofs.Binding.Layout
import ActionBook.Proofs.Program.Outcome
import ActionBook.Proofs.Text.Cutting

/-!
# `Program.Arguments`: values from the command line

A param is cut at the first equals sign of its argument and the key is trimmed. What a template can
have as a key is trimmed already, so that a value can be given for it just if there is no equals sign
in it (`param?_eq_some_iff`). For an action without such keys, one argument for each of its keys gives
any values to them, and running it with these arguments renders just those values
(`bindings_filled_from_arguments`).
-/

namespace ActionBook

namespace CommandLine

open Text (cutAt)

variable {k v arg name : String} {p : Param} {params : List Param}

/-! ## Params -/

/-- The key of a param has no equals sign in it, wherever the argument has them. -/
theorem not_mem_key_of_param? (h : param? arg = some p) : '=' ∉ p.key.toList := by
  unfold param? at h
  split at h
  · cases h
  next key value hcut =>
    simp only at h
    split at h
    · cases h
    · cases h
      rw [String.toList_ofList]
      exact fun hmem => Text.not_mem_of_cutAt hcut (Text.mem_of_mem_trim hmem)

/-- A key that needs no trimming is read as it is up to the first equals sign, the value being all
that follows. -/
theorem param?_of_not_mem (hne : k.toList ≠ []) (htrim : Text.trim k.toList = k.toList)
    (h : '=' ∉ k.toList) (v : String) : param? (k ++ "=" ++ v) = some ⟨k, v⟩ := by
  have hcut : cutAt '=' (k ++ "=" ++ v).toList = some (k.toList, v.toList) := by
    refine Text.cutAt_eq_some_iff.2 ⟨?_, h⟩
    simp
  rw [param?, hcut]
  simp only [htrim, String.ofList_toList, List.isEmpty_iff, if_neg hne]

/-- Of the keys of a template, just those without an equals sign can be given a value. -/
theorem param?_eq_some_iff {t : String} (hk : k ∈ Binding.keys t) (v : String) :
    param? (k ++ "=" ++ v) = some ⟨k, v⟩ ↔ '=' ∉ k.toList := by
  obtain ⟨hne, htrim⟩ := Binding.trim_of_mem_keys hk
  exact ⟨not_mem_key_of_param?, fun h => param?_of_not_mem hne htrim h v⟩

/-! ## Options -/

/-- The option that gives a key a value. -/
def paramOption (p : Param) : String := "-p" ++ p.key ++ "=" ++ p.value

/-- A param that is read back from its option. -/
structure Fillable (p : Param) : Prop where
  ne_nil : p.key.toList ≠ []
  trim : Text.trim p.key.toList = p.key.toList
  uncut : '=' ∉ p.key.toList

theorem fillable_of_mem_keys {t : String} (hk : k ∈ Binding.keys t) (h : '=' ∉ k.toList)
    (v : String) : Fillable ⟨k, v⟩ :=
  ⟨(Binding.trim_of_mem_keys hk).1, (Binding.trim_of_mem_keys hk).2, h⟩

theorem of_paramOption (p : Param) :
    Argument.of (paramOption p) = .short 'p' (p.key ++ "=" ++ p.value).toList := by
  have htext : (paramOption p).toList = '-' :: 'p' :: (p.key ++ "=" ++ p.value).toList := by
    simp [paramOption]
  rw [Argument.of, htext]
  rfl

/-- The option of a param is taken for the value of the letter, for no equals sign starts its key. -/
theorem option?_paramOption (h : Fillable p) :
    (Argument.short 'p' (p.key ++ "=" ++ p.value).toList).option? 'p'
      ['p', 'a', 'r', 'a', 'm'] = some (some (p.key ++ "=" ++ p.value)) := by
  obtain ⟨c, rest, hkey⟩ := List.exists_cons_of_ne_nil h.ne_nil
  have hc : c ≠ '=' := by
    rintro rfl
    exact h.uncut (hkey ▸ List.mem_cons_self)
  have htext : (p.key ++ "=" ++ p.value).toList = c :: (rest ++ '=' :: p.value.toList) := by
    simp [hkey]
  have hvalue : String.ofList (c :: (rest ++ '=' :: p.value.toList)) = p.key ++ "=" ++ p.value := by
    rw [← htext, String.ofList_toList]
  rw [Argument.option?, if_pos rfl, htext, hvalue]
  · rw [htext]
    exact List.cons_ne_nil _ _
  · intro value heq
    rw [htext] at heq
    exact hc (List.cons.inj heq).1

theorem readRun_paramOption (h : Fillable p) (name : Option String) (params : List Param)
    (rest : List String) :
    readRun name params (paramOption p :: rest) = readRun name (params ++ [p]) rest := by
  rw [readRun.eq_def]
  simp only [of_paramOption, option?_paramOption h, param?_of_not_mem h.ne_nil h.trim h.uncut]
  rfl

/-- Options are read one after the other, and then the name. -/
theorem readRun_paramOptions (h : ∀ p ∈ params, Fillable p) (before : List Param) (name : String) :
    readRun none before (params.map paramOption ++ ["--", name]) =
      .ok (some name, before ++ params) := by
  induction params generalizing before with
  | nil => rw [List.append_nil]; rfl
  | cons p params ih =>
    obtain ⟨hp, hparams⟩ := List.forall_mem_cons.1 h
    rw [List.map_cons, List.cons_append, readRun_paramOption hp, ih hparams, List.append_assoc]
    rfl

/-- Arguments that load a catalogue and run an action with some params. -/
def runArguments (path name : String) (params : List Param) : List String :=
  ("--actions=" ++ path) :: "run" :: (params.map paramOption ++ ["--", name])

theorem read_runArguments {path : String} (hpath : path ≠ "") (h : ∀ p ∈ params, Fillable p)
    (env : Environment) (name : String) :
    read env (runArguments path name params) = .ok ⟨some path, .run name params⟩ := by
  have hfirst : Argument.of ("--actions=" ++ path) =
      .long ['a', 'c', 't', 'i', 'o', 'n', 's'] (some path.toList) := by
    have htext : ("--actions=" ++ path).toList =
        '-' :: '-' :: (['a', 'c', 't', 'i', 'o', 'n', 's'] ++ '=' :: path.toList) := by
      simp
    have hcut : cutAt '=' (['a', 'c', 't', 'i', 'o', 'n', 's'] ++ '=' :: path.toList) =
        some (['a', 'c', 't', 'i', 'o', 'n', 's'], path.toList) :=
      Text.cutAt_append (by decide) _
    rw [Argument.of, htext]
    simp only [List.cons_append] at hcut ⊢
    rw [hcut]
  have hcatalog : setCatalog none path = .ok (some path) := by
    rw [setCatalog, if_neg (by simpa using hpath)]
  have hcommand : readCommand "run" (params.map paramOption ++ ["--", name]) =
      .ok (.run name params) := by
    unfold readCommand
    rw [if_neg (by decide), if_neg (by decide), if_pos rfl, readRun_paramOptions h]
    rfl
  have hrest : readFrom env (some path) ("run" :: (params.map paramOption ++ ["--", name])) =
      .ok ⟨some path, .run name params⟩ := by
    have hplain : Argument.of "run" = .plain "run" := rfl
    rw [readFrom.eq_def]
    simp only [hplain, hcommand]
    rfl
  have hoption : (Argument.long ['a', 'c', 't', 'i', 'o', 'n', 's'] (some path.toList)).option? 'a'
      ['a', 'c', 't', 'i', 'o', 'n', 's'] = some (some path) := by
    rw [Argument.option?, if_pos rfl, Option.map_some, String.ofList_toList]
  rw [read, runArguments, readFrom.eq_def]
  simp only [hfirst, hoption, hcatalog, hrest]
  rfl

end CommandLine

/-! ## Values for an action -/

namespace Param

variable {keys : List String} {value : String → String} {k : String}

/-- The params that give some keys their values. -/
def assigning (keys : List String) (value : String → String) : List Param :=
  keys.map fun k => ⟨k, value k⟩

theorem lookup_assigning (h : k ∈ keys) : lookup (assigning keys value) k = some (value k) := by
  cases hlookup : lookup (assigning keys value) k with
  | none => exact absurd rfl (lookup_eq_none_iff.1 hlookup _ (List.mem_map_of_mem h))
  | some v =>
    obtain ⟨before, after, heq, -⟩ := lookup_eq_some_iff.1 hlookup
    have hmem : (⟨k, v⟩ : Param) ∈ assigning keys value := by
      rw [heq]
      simp
    obtain ⟨k', -, hparam⟩ := List.mem_map.1 hmem
    cases hparam
    rfl

end Param

namespace Program

open CommandLine (param? paramOption runArguments)
open Param (assigning)

variable {s : Surroundings} {ledger : Ledger} {catalog : Option String} {name : String}
  {id : ActionId} {a : Action} {params : List Param}

theorem fillable_of_mem_assigning {t : RequestTemplate} (h : ∀ k ∈ t.bindingKeys, '=' ∉ k.toList)
    (value : String → String) :
    ∀ p ∈ assigning t.bindingKeys.toList value, CommandLine.Fillable p := by
  intro p hp
  obtain ⟨k, hk, rfl⟩ := List.mem_map.1 hp
  have htext : ∃ text, k ∈ Binding.keys text := by
    rcases RequestTemplate.mem_bindingKeys.1 (TextSet.mem_def.2 hk) with
      hpath | ⟨p, -, hp⟩ | ⟨p, -, hp⟩ | ⟨b, -, hb⟩
    exacts [⟨_, hpath⟩, ⟨_, hp⟩, ⟨_, hp⟩, ⟨_, hb⟩]
  obtain ⟨text, htext⟩ := htext
  exact CommandLine.fillable_of_mem_keys htext (h k (TextSet.mem_def.2 hk)) _

/-- A run of a stored action with a param for every key does not fail for lack of one. -/
theorem runOutcome_ne_unresolvedBindings [Url.Idna] (h : Loaded s catalog ledger)
    (hstored : ledger.store.find? id = some a)
    (hparams : ∃ t, a.template.rendered (Param.lookup params) = .ok t) (network : Http.Network)
    (missing : TextSet) :
    runOutcome s ledger network id params ≠ .error (.unresolvedBindings missing) := by
  obtain ⟨t, ht⟩ := hparams
  intro hrun
  rw [runOutcome_eq h hstored] at hrun
  cases hcall : (service s).callFor a params with
  | ok call => rw [hcall] at hrun; cases hrun
  | error e =>
    rw [hcall] at hrun
    cases hrun
    cases (Service.callFor_eq_error_iff plugins_service).1 hcall with
    | lacking _ _ _ hlacking =>
      rw [RequestTemplate.rendered_eq_error_iff.2 hlacking] at ht
      cases ht

/-- Every binding whose key has no equals sign in it can be filled from the command line. An argument
with a key of a template, an equals sign and a value is read as that key with that value just if the
key has no equals sign in it; no argument at all gives a value to another key. So for an action whose
binding keys have none, and for all values of them, one option for each key makes arguments that are
read as a command to run it; its template is rendered with just these values, and if it is stored under
the name, the run does not fail for lack of a value. -/
theorem bindings_filled_from_arguments [Url.Idna] :
    (∀ t k v, k ∈ Binding.keys t → (param? (k ++ "=" ++ v) = some ⟨k, v⟩ ↔ '=' ∉ k.toList)) ∧
    (∀ arg p, param? arg = some p → '=' ∉ p.key.toList) ∧
    ∀ (a : Action) (value : String → String),
      (∀ k ∈ a.template.bindingKeys, '=' ∉ k.toList) →
      ∃ params : List Param, (∀ p ∈ params, p.key ∈ a.template.bindingKeys ∧ p.value = value p.key) ∧
        (∀ env path name, path ≠ "" →
          CommandLine.read env (runArguments path name params) =
            .ok ⟨some path, .run name params⟩) ∧
        (∃ t, a.template.rendered (Param.lookup params) = .ok t ∧
          a.template.RenderedTo (fun k => some (value k)) t) ∧
        ∀ s path name ledger id network missing, path ≠ "" → Loaded s (some path) ledger →
          Named ledger name id a →
          (run s (runArguments path name params) network).1 ≠
            .failed (.action (.unresolvedBindings missing)) := by
  refine ⟨fun t k v hk => CommandLine.param?_eq_some_iff hk v,
    fun arg p => CommandLine.not_mem_key_of_param?, fun a value hkeys => ?_⟩
  have hfillable := fillable_of_mem_assigning hkeys value
  have hread := fun env path name (hpath : path ≠ "") =>
    CommandLine.read_runArguments hpath hfillable env name
  have hrendered : ∃ t, a.template.rendered (Param.lookup
      (assigning a.template.bindingKeys.toList value)) = .ok t := by
    refine RequestTemplate.exists_rendered_eq_ok_iff.2 fun k hk => ?_
    exact ⟨⟨k, value k⟩, List.mem_map_of_mem hk, rfl⟩
  refine ⟨assigning a.template.bindingKeys.toList value, ?params, hread, ?rendered, ?run⟩
  case params =>
    intro p hp
    obtain ⟨k, hk, rfl⟩ := List.mem_map.1 hp
    exact ⟨hk, rfl⟩
  case rendered =>
    obtain ⟨t, ht⟩ := hrendered
    refine ⟨t, ht, RequestTemplate.renderedTo_of_rendered ?_⟩
    rw [← ht]
    exact RequestTemplate.rendered_congr fun k hk => (Param.lookup_assigning hk).symm
  case run =>
    intro s path name ledger id network missing hpath h named hfailed
    have hargs := hread s.environment path name hpath
    cases hrun : runOutcome s ledger network id (assigning a.template.bindingKeys.toList value) with
    | ok ended =>
      rw [run_eq_ran hargs h rfl named hrun] at hfailed
      cases hfailed
    | error e =>
      rw [run_eq_refused hargs h rfl named hrun] at hfailed
      cases hfailed
      exact runOutcome_ne_unresolvedBindings h named.stored hrendered network missing hrun

/-- A value with an equals sign in it is filled into the path of an action. -/
theorem bindings_filled_from_arguments_echo :
    (∀ k ∈ Service.echoAction.template.bindingKeys, '=' ∉ k.toList) ∧
    ∃ params t,
      CommandLine.read (fun _ => none) (runArguments "book.toml" "echo user" params) =
        .ok ⟨some "book.toml", .run "echo user" params⟩ ∧
      Service.echoAction.template.rendered (Param.lookup params) = .ok t ∧
      t.path = "/users/a=b" := by
  have hkeys : ∀ k ∈ Service.echoAction.template.bindingKeys, '=' ∉ k.toList := by
    have hlist : ∀ k ∈ Service.echoAction.template.bindingKeys.toList, '=' ∉ k.toList := by
      decide +kernel
    exact hlist
  obtain ⟨-, -, hfilled⟩ := bindings_filled_from_arguments
  obtain ⟨params, -, hread, ⟨t, ht, hrendered⟩, -⟩ :=
    hfilled Service.echoAction (fun _ => "a=b") hkeys
  have hpath : Binding.render (fun _ => some "a=b") Service.echoAction.template.path =
      .ok "/users/a=b" := by
    decide +kernel
  have heq := hrendered.path.symm.trans hpath
  exact ⟨hkeys, params, t, hread _ _ _ (by decide), ht, Except.ok.inj heq⟩

/-- The argument for a key with an equals sign in it is read as another key with another value. -/
theorem param?_cuts_key :
    "a=b" ∈ Binding.keys "\x7b\x7ba=b\x7d\x7d" ∧ param? ("a=b" ++ "=" ++ "v") = some ⟨"a", "b=v"⟩ ∧
      param? ("a=b" ++ "=" ++ "v") ≠ some ⟨"a=b", "v"⟩ := by
  decide +kernel

end Program

end ActionBook
