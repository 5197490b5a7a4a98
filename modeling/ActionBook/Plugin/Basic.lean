import ActionBook.Execution.Basic

/-!
# `Plugin`: what runs actions

An executor takes a datasource and a rendered template and answers with a result or an error, after
some time or never. It may act on the world around it, a state that the rest of the program only
passes on. Executors are registered under the names of plugins.
-/

namespace ActionBook

/-- Why an executor has no result. -/
inductive PluginError where
  /-- It took too long; the given number of milliseconds was allowed. -/
  | timeout (milliseconds : UInt64)
  /-- There was no exchange with the other side. -/
  | connection (reason : String)
  /-- There is no way to do what the action asks for. -/
  | configuration (reason : String)
  /-- The answer cannot be read. -/
  | response (reason : String)
deriving DecidableEq, Repr

namespace PluginError

/-- The code that stands in place of a status. -/
def code : PluginError → String
  | .timeout _ => "PE-TIMEOUT"
  | .connection _ => "PE-CONNECTION"
  | .configuration _ => "PE-CONFIG"
  | .response _ => "PE-RESPONSE"

/-- The message of an error. -/
def message : PluginError → String
  | .timeout milliseconds => s!"execution timed out after {milliseconds.toNat} ms"
  | .connection reason => s!"connection failed: {reason}"
  | .configuration reason => s!"invalid configuration: {reason}"
  | .response reason => s!"unreadable response: {reason}"

/-- The result of a run that ended with an error. -/
def result (e : PluginError) : RunResult := .failure e.code e.message

end PluginError

/-- What an executor answers. -/
structure Reply where
  outcome : Except PluginError RunResult
  /-- After how many milliseconds the answer is there; never, if nothing is said. -/
  delay : Option Nat := some 0

/-- Something that runs rendered templates, acting on a world. -/
abbrev Executor (World : Type) := Datasource → RequestTemplate → World → Reply × World

/-- Executors by the name of their plugin. -/
structure Registry (World : Type) where
  executors : List (String × Executor World) := []

namespace Registry

variable {World : Type}

/-- The registry with one more executor, in place of any other of that name. -/
def register (r : Registry World) (plugin : String) (e : Executor World) : Registry World :=
  ⟨(plugin, e) :: r.executors.filter fun other => other.1 ≠ plugin⟩

/-- The executor of a plugin. -/
def find? (r : Registry World) (plugin : String) : Option (Executor World) :=
  r.executors.lookup plugin

end Registry

/-- A call of an executor. -/
structure PluginCall (World : Type) where
  executor : Executor World
  datasource : Datasource
  /-- The rendered template. -/
  template : RequestTemplate

namespace PluginCall

variable {World : Type}

/-- How many milliseconds a call may take. -/
def limit (call : PluginCall World) (default : UInt64) : UInt64 :=
  call.template.timeout.getD default

/-- Makes a call. The result is the executor's if it comes in time, and it says how long it took; an
error and a time-out give failed results. -/
def run (call : PluginCall World) (default : UInt64) (world : World) : RunResult × World :=
  let limit := call.limit default
  let (reply, world) := call.executor call.datasource call.template world
  match reply.delay with
  | some delay =>
    if delay ≤ limit.toNat then
      let duration := UInt64.ofNat delay
      match reply.outcome with
      | .ok result => ({ result with duration }, world)
      | .error e => ({ e.result with duration }, world)
    else ({ (PluginError.timeout limit).result with duration := limit }, world)
  | none => ({ (PluginError.timeout limit).result with duration := limit }, world)

end PluginCall

end ActionBook
