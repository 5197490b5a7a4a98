import ActionBook.Catalog
import ActionBook.CommandLine
import ActionBook.Execution.Format
import ActionBook.Json.Printer
import ActionBook.Rest.Executor
import ActionBook.Service.Lookup
import ActionBook.Service.Running
import ActionBook.Service.Writing
import ActionBook.Url.AsciiNames

/-!
# `Program`: a run from arguments to output

A run loads a catalogue into an empty store, if it is given one, and carries out one command. All
that it takes from outside, files and variables and the time of day, is given to it as functions.
-/

namespace ActionBook

/-- What a run takes from outside. -/
structure Surroundings where
  /-- What is found at a path. -/
  files : String → Except FileFault Text.Octets
  environment : Environment
  ids : Nat → ActionId
  clock : Nat → Timestamp

/-- Why a run fails. -/
inductive ProgramError where
  | catalog (e : CatalogError)
  | action (e : ActionError)

/-- The kind of a failure, and its data if it comes from an action. -/
def ProgramError.description : ProgramError → String
  | .catalog e => if e.isUnreadable then "Io" else "Parse"
  | .action e => e.description

/-- How a run ends. -/
inductive Outcome where
  /-- The command has been carried out. -/
  | done (stdout : String) (isSuccess : Bool)
  | failed (e : ProgramError)
  /-- There was no command. -/
  | stopped (stop : Stop)

namespace Outcome

/-- The exit code. -/
def exitCode : Outcome → UInt32
  | .done _ isSuccess => if isSuccess then 0 else 1
  | .failed _ => 1
  | .stopped (.shown _) => 0
  | .stopped .misused => 2

/-- What is printed. -/
def stdout : Outcome → String
  | .done stdout _ => stdout
  | .failed _ => ""
  | .stopped (.shown text) => text
  | .stopped .misused => ""

/-- What is said about a run that did not go well. -/
def stderr : Outcome → String
  | .failed e => s!"Error: {e.description}\n"
  | .stopped .misused => CommandLine.helpText
  | _ => ""

end Outcome

namespace Program

/-- The service of a run. -/
def service [Url.Idna] (s : Surroundings) : Service Http.Network where
  plugins := Registry.register {} Rest.pluginName Rest.executor
  defaultTimeout := (Settings.ofEnvironment s.environment).executionTimeout
  ids := s.ids
  clock := s.clock

/-- The first failure among some items, if there is one. -/
def firstFailure? : List (Except ActionError Action) → Option ActionError
  | [] => none
  | .ok _ :: items => firstFailure? items
  | .error e :: _ => some e

/-- The ledger after a catalogue has been loaded, if there is one to load. -/
def load [Url.Idna] (s : Surroundings) (catalog : Option String) : Except ProgramError Ledger :=
  match catalog with
  | none => .ok {}
  | some path =>
    match Catalog.ofFile path (s.files path) with
    | .error e => .error (.catalog e)
    | .ok catalog =>
      let (items, ledger) := (service s).saveAll catalog.actions none {}
      match firstFailure? items with
      | some e => .error (.action e)
      | none => .ok ledger

/-- A line about an action: its name, its plugin and whether it can be run. -/
def line (a : Action) : String :=
  let state := if a.isValid then "valid" else "invalid"
  s!"{a.name}\t{a.plugin}\t{state}\n"

/-- The action with a name. -/
def find (name : String) : Operation Action := do
  Operation.orFail (.notFound name) (← Service.findByName name)

/-- The id of an action with a name. -/
def idOf (name : String) (a : Action) : Operation ActionId :=
  Operation.orFail (.notFound name) a.id

/-- Carries out a command: what it prints, whether all went well, and the network afterwards. -/
def perform [Url.Idna] (s : Surroundings) (command : Command) (network : Http.Network) :
    Operation (String × Bool × Http.Network) :=
  match command with
  | .list => do
    let actions ← Service.getAll
    return (String.join (actions.map line), true, network)
  | .print name => do
    let action ← find name
    return ((Action.codec.encode action).prettyText ++ "\n", true, network)
  | .run name params => do
    let id ← idOf name (← find name)
    let (result, network) ← (service s).run { RunRequest.forId id with params } network
    return ((RunResult.codec.encode result).prettyText ++ "\n", result.isSuccess, network)

/-- A whole run. -/
def run [Url.Idna] (s : Surroundings) (args : List String) (network : Http.Network) :
    Outcome × Http.Network :=
  match CommandLine.read s.environment args with
  | .error stop => (.stopped stop, network)
  | .ok invocation =>
    match load s invocation.catalog with
    | .error e => (.failed e, network)
    | .ok ledger =>
      match perform s invocation.command network ledger with
      | .ok (stdout, isSuccess, network) _ => (.done stdout isSuccess, network)
      | .error e _ => (.failed (.action e), network)

end Program

end ActionBook
