import ActionBook.Execution.Rendering
import ActionBook.Service.Basic

/-!
# `Service.Running`: running actions

Everything that can be wrong with a request is found out before an executor is called, by
`Service.prepare`, which neither calls one nor touches the world. What happens in the call is a
result, failed or not.
-/

namespace ActionBook.Service

open Operation

variable {World : Type}

/-- The action that a request is about. One that comes with the request has its derived fields
computed anew. -/
def resolve (r : RunRequest) : Operation Action :=
  match r.actionId, r.action with
  | some id, none => do orFail (.unknownId id) (← ofCall (Repository.findById id))
  | none, some action => pure action.refreshed
  | some _, some _ =>
    throw (.invalidParameter "provide either action_id or action, not both")
  | none, none => throw (.invalidParameter "action_id or action is required")

/-- The call that runs an action with some values. -/
def callFor (s : Service World) (a : Action) (params : List Param) :
    Except ActionError (PluginCall World) :=
  let invalid := ActionError.invalidAction a.name a.invalids
  if a.isValid then
    match a.datasource with
    | none => .error invalid
    | some datasource =>
      match s.plugins.find? a.plugin with
      | none => .error (.pluginNotFound a.plugin)
      | some executor =>
        match a.template.rendered (Param.lookup params) with
        | .error missing => .error (.unresolvedBindings missing)
        | .ok template => .ok { executor, datasource, template }
  else .error invalid

/-- The call that a request asks for. -/
def prepare (s : Service World) (r : RunRequest) : Operation (PluginCall World) := do
  let action ← resolve r
  match s.callFor action r.params with
  | .ok call => pure call
  | .error e => throw e

/-- Runs what a request asks for. -/
def run (s : Service World) (r : RunRequest) (world : World) : Operation (RunResult × World) := do
  let call ← s.prepare r
  return call.run s.defaultTimeout world

end ActionBook.Service
