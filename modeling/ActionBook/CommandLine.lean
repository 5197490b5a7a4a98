import ActionBook.Execution.Basic
import ActionBook.Settings
import ActionBook.Text.Blank

/-!
# `CommandLine`: what a program is asked to do

Arguments are read from left to right. Options of the program come before the command, those of a
command after it; the first argument that makes no sense, or that asks for a text to be shown, ends
the reading. After a bare `--` no argument is an option.
-/

namespace ActionBook

/-- A command. -/
inductive Command where
  /-- List all actions. -/
  | list
  /-- Print the action with a name. -/
  | print (name : String)
  /-- Run the action with a name, with some values. -/
  | run (name : String) (params : List Param)
deriving DecidableEq, Repr

/-- What a program is asked to do. -/
structure Invocation where
  /-- Where actions are to be loaded from. -/
  catalog : Option String
  command : Command
deriving DecidableEq, Repr

/-- Why a program has nothing to do. -/
inductive Stop where
  /-- A text is to be shown. -/
  | shown (text : String)
  /-- The arguments make no sense. -/
  | misused
deriving DecidableEq, Repr

namespace CommandLine

/-- The name and the version of the program. -/
def versionText : String := "actionhub 0.1.0\n"

/-- What there is to know about the arguments. -/
def helpText : String :=
  "Run stored API actions\n\n" ++
  "Usage: actionhub [--actions FILE] list | show NAME | run NAME [-p KEY=VALUE]...\n\n" ++
  "Commands:\n" ++
  "  list  List loaded actions\n" ++
  "  show  Print one action as JSON\n" ++
  "  run   Execute an action and print its result as JSON\n" ++
  "  help  Print this message\n\n" ++
  "Options:\n" ++
  "  -a, --actions FILE  TOML catalogue of actions to load\n" ++
  "  -h, --help          Print help\n" ++
  "  -V, --version       Print version\n"

/-- The variable for the catalogue. -/
def catalogVariable : String := "ACTIONHUB_ACTIONS_FILE"

/-! ## Arguments -/

/-- An argument by its looks. -/
inductive Argument where
  | plain (text : String)
  /-- Two dashes and nothing else. -/
  | divider
  /-- Two dashes, a name, and a value after an equals sign if there is one. -/
  | long (name : List Char) (value : Option (List Char))
  /-- A dash, a letter, and what follows it. -/
  | short (letter : Char) (attached : List Char)

/-- The looks of an argument. A single dash is plain. -/
def Argument.of (arg : String) : Argument :=
  match arg.toList with
  | ['-', '-'] => .divider
  | '-' :: '-' :: rest =>
    match Text.cutAt '=' rest with
    | some (name, value) => .long name (some value)
    | none => .long rest none
  | '-' :: letter :: attached => .short letter attached
  | _ => .plain arg

/-- Whether an argument asks for help. -/
def Argument.asksHelp : Argument → Bool
  | .long name none => name = ['h', 'e', 'l', 'p']
  | .short letter _ => letter = 'h'
  | _ => false

/-- Whether an argument asks for the version. -/
def Argument.asksVersion : Argument → Bool
  | .long name none => name = ['v', 'e', 'r', 's', 'i', 'o', 'n']
  | .short letter _ => letter = 'V'
  | _ => false

/-- Whether an argument is an option with a value, and the value if it is attached. An equals sign
between the letter and the value does not count. -/
def Argument.option? (letter : Char) (name : List Char) : Argument → Option (Option String)
  | .long given value => if given = name then some (value.map String.ofList) else none
  | .short given attached =>
    if given = letter then
      match attached with
      | [] => some none
      | '=' :: value => some (some (String.ofList value))
      | value => some (some (String.ofList value))
    else none
  | _ => none

/-- The value that an argument is, if it is one. -/
def value? (arg : String) : Option String :=
  match Argument.of arg with
  | .plain text => some text
  | _ => none

/-- The value for a binding in an argument: a key that is not blank, an equals sign, and a value. -/
def param? (arg : String) : Option Param :=
  match Text.cutAt '=' arg.toList with
  | none => none
  | some (key, value) =>
    let key := Text.trim key
    if key.isEmpty then none else some ⟨String.ofList key, String.ofList value⟩

/-! ## Commands -/

/-- A name among plain arguments only. -/
def readPlain (name : Option String) : List String → Except Stop (Option String)
  | [] => .ok name
  | arg :: rest => if name.isSome then .error .misused else readPlain (some arg) rest

/-- The arguments of a command that has none. -/
def readNothing : List String → Except Stop Unit
  | [] => .ok ()
  | arg :: rest =>
    let arg := Argument.of arg
    if arg.asksHelp then .error (.shown helpText)
    else match arg, rest with
      | .divider, [] => .ok ()
      | _, _ => .error .misused

/-- The arguments of a command that has a name. -/
def readName (name : Option String) : List String → Except Stop (Option String)
  | [] => .ok name
  | arg :: rest =>
    match Argument.of arg with
    | .plain text => if name.isSome then .error .misused else readName (some text) rest
    | .divider => readPlain name rest
    | arg => if arg.asksHelp then .error (.shown helpText) else .error .misused

/-- The arguments of a command that has a name and values for bindings. -/
def readRun (name : Option String) (params : List Param) :
    List String → Except Stop (Option String × List Param)
  | [] => .ok (name, params)
  | arg :: rest =>
    match Argument.of arg with
    | .plain text => if name.isSome then .error .misused else readRun (some text) params rest
    | .divider => (readPlain name rest).map fun name => (name, params)
    | arg =>
      if arg.asksHelp then .error (.shown helpText)
      else match arg.option? 'p' ['p', 'a', 'r', 'a', 'm'] with
        | none => .error .misused
        | some (some value) =>
          match param? value with
          | none => .error .misused
          | some p => readRun name (params ++ [p]) rest
        | some none =>
          match rest with
          | [] => .error .misused
          | next :: rest =>
            match (value? next).bind param? with
            | none => .error .misused
            | some p => readRun name (params ++ [p]) rest

/-- The name, which has to be there. -/
def required : Option String → Except Stop String
  | some name => .ok name
  | none => .error .misused

/-- The names of all commands. -/
def commandNames : List String := ["list", "show", "run", "help"]

/-- The command with a name and arguments. -/
def readCommand (command : String) (args : List String) : Except Stop Command :=
  if command = "list" then (readNothing args).map fun () => .list
  else if command = "show" then do return .print (← required (← readName none args))
  else if command = "run" then do
    let (name, params) ← readRun none [] args
    return .run (← required name) params
  else if command = "help" then
    match args with
    | [] => .error (.shown helpText)
    | [topic] => if topic ∈ commandNames then .error (.shown helpText) else .error .misused
    | _ => .error .misused
  else .error .misused

/-! ## The program -/

/-- The place of the catalogue, if none was given before; it cannot be empty. -/
def setCatalog (before : Option String) (path : String) : Except Stop (Option String) :=
  if before.isSome ∨ path.isEmpty then .error .misused else .ok (some path)

/-- The place of the catalogue, from the environment if no argument gave one. -/
def withDefault (env : Environment) : Option String → Except Stop (Option String)
  | some path => .ok (some path)
  | none =>
    match env catalogVariable with
    | none => .ok none
    | some path => setCatalog none path

/-- What arguments ask for, with the place of the catalogue that those before them gave. -/
def readFrom (env : Environment) (catalog : Option String) :
    List String → Except Stop Invocation
  | [] => .error .misused
  | arg :: rest =>
    match Argument.of arg with
    | .plain name => do
      let command ← readCommand name rest
      return { catalog := ← withDefault env catalog, command }
    | .divider => .error .misused
    | arg =>
      if arg.asksHelp then .error (.shown helpText)
      else if arg.asksVersion then .error (.shown versionText)
      else match arg.option? 'a' ['a', 'c', 't', 'i', 'o', 'n', 's'] with
        | none => .error .misused
        | some (some value) =>
          match setCatalog catalog value with
          | .error stop => .error stop
          | .ok catalog => readFrom env catalog rest
        | some none =>
          match rest with
          | [] => .error .misused
          | next :: rest =>
            match value? next with
            | none => .error .misused
            | some value =>
              match setCatalog catalog value with
              | .error stop => .error stop
              | .ok catalog => readFrom env catalog rest

/-- What arguments ask for. -/
def read (env : Environment) (args : List String) : Except Stop Invocation :=
  readFrom env none args

end CommandLine

end ActionBook
