import ActionBook.Identifier
import ActionBook.Program
import Std.Time.DateTime.Timestamp

/-!
# `Main`: the program

Reads what `Program.run` needs and prints what it gives. Requests find nothing to reach: this
program has no network of its own.
-/

namespace ActionBook.Main

/-- What is found at a path of the file system. -/
def readPath (path : String) : IO (Except FileFault Text.Octets) := do
  try
    return .ok (← IO.FS.readBinFile path).toList
  catch e =>
    match e with
    | .noFileOrDirectory .. => return .error .notFound
    | .inappropriateType .. => return .error .isDirectory
    | e => return .error (.other (toString e))

/-- The time of day. -/
def currentTime : IO (Option Timestamp) := do
  let now ← Std.Time.Timestamp.now
  let nanos := now.toNanosecondsSinceUnixEpoch.val.toNat
  return Timestamp.ofEpoch? (nanos / 1000000000) (nanos % 1000000000)

/-- A number out of a source of randomness. -/
def randomNumber : IO Nat := do
  return (← IO.getRandomBytes 16).toList.foldl (fun n b => n * 256 + b.toNat) 0

/-- Runs the program with its arguments and gives its exit code. -/
def runWith (args : List String) : IO UInt32 := do
  let names := [CommandLine.catalogVariable, Settings.timeoutVariable, Settings.logLevelVariable]
  let values ← names.mapM fun name => return (name, ← IO.getEnv name)
  let env : Environment := fun name => (values.lookup name).join
  let path := match CommandLine.read env args with
    | .ok invocation => invocation.catalog
    | .error _ => none
  let found ← match path with
    | some path => readPath path
    | none => pure (.error .notFound)
  let seed ← randomNumber
  match ← currentTime with
  | none =>
    IO.eprintln "The time of day is out of range."
    return 1
  | some now =>
    let surroundings : Surroundings := {
      files := fun _ => found
      environment := env
      ids := fun n => ActionId.numbered (seed + n)
      clock := fun _ => now }
    let (outcome, _) := Program.run surroundings args Http.Network.offline
    IO.print outcome.stdout
    IO.eprint outcome.stderr
    return outcome.exitCode

end ActionBook.Main

/-- The program. -/
def main (args : List String) : IO UInt32 := ActionBook.Main.runWith args
