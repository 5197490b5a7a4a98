import ActionBook.Action.Format
import ActionBook.Execution.Basic

/-!
# `Execution.Format`: runs as JSON
-/

namespace ActionBook

/-- The format of a value for a binding. -/
def Param.codec : Codec Param :=
  .record "Param"
    (.cons (.required "key" .text) <| .cons (.required "value" .text) .nil)
    (fun p => (p.key, p.value, ()))
    fun (key, value, ()) => { key, value }

/-- The format of a request to run an action. -/
def RunRequest.codec : Codec RunRequest :=
  .record "ExecuteActionDto"
    (.cons (.optional "action_id" ActionId.codec) <|
     .cons (.optional "action" Action.codec) <|
     .cons (.defaulting "params" (.listOf Param.codec) []) .nil)
    (fun r => (r.actionId, r.action, r.params, ()))
    fun (actionId, action, params, ()) => { actionId, action, params }

/-- The format of a request that was sent. -/
def SentRequest.codec : Codec SentRequest :=
  .record "ActionExecutionRequest"
    (.cons (.required "http_method" .text) <|
     .cons (.required "url" .text) <|
     .cons (.required "headers" (.listOf Property.codec)) <|
     .cons (.optionalByName "body" .text) .nil)
    (fun r => (r.method, r.url, r.headers, r.body, ()))
    fun (method, url, headers, body, ()) => { method, url, headers, body }

/-- The format of what came of a run. -/
def RunResult.codec : Codec RunResult :=
  .record "ActionExecutionResult"
    (.cons (.required "status_code" .text) <|
     .cons (.required "headers" .free) <|
     .cons (.required "body" .free) <|
     .cons (.required "is_execution_success" .flag) <|
     .cons (.optionalByName "request" SentRequest.codec) <|
     .cons (.required "duration_ms" .count) .nil)
    (fun r => (r.status, r.headers, r.body, r.isSuccess, r.request, r.duration, ()))
    fun (status, headers, body, isSuccess, request, duration, ()) =>
      { status, headers, body, isSuccess, request, duration }

end ActionBook
