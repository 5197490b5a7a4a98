import ActionBook.Action.Basic
import ActionBook.Json.Basic

/-!
# `Execution`: running an action

A `RunRequest` names a stored action or brings one along, with values for its bindings. A
`RunResult` is what came of a run: an answer, with the request that was sent for it, or a failure
with its code.
-/

namespace ActionBook

/-- A value for a binding. -/
structure Param where
  key : String
  value : String
deriving DecidableEq, Repr, Inhabited

/-- What to run, and with which values. -/
structure RunRequest where
  actionId : Option ActionId := none
  action : Option Action := none
  params : List Param := []
deriving DecidableEq

/-- A request as it was sent. -/
structure SentRequest where
  method : String
  url : String
  headers : List Property
  body : Option String
deriving DecidableEq, Repr

/-- What came of a run. -/
structure RunResult where
  /-- The status of the answer, or the code of the failure. -/
  status : String
  headers : JsonValue
  body : JsonValue
  isSuccess : Bool
  request : Option SentRequest := none
  /-- How many milliseconds the run took. -/
  duration : UInt64 := 0

namespace RunRequest

/-- A request to run a stored action. -/
def forId (id : ActionId) : RunRequest := { actionId := some id }

/-- A request to run an action that comes along. -/
def forAction (action : Action) : RunRequest := { action := some action }

/-- The request with one more value. -/
def withParam (r : RunRequest) (key value : String) : RunRequest :=
  { r with params := r.params ++ [⟨key, value⟩] }

end RunRequest

/-- The value of a key: that of its last occurrence. -/
def Param.lookup (params : List Param) (key : String) : Option String :=
  (params.reverse.find? fun p => p.key = key).map Param.value

namespace RunResult

/-- A run that failed. -/
def failure (code message : String) : RunResult :=
  { status := code, headers := .null, body := .str message, isSuccess := false }

end RunResult

end ActionBook
