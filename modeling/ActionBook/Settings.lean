import ActionBook.Text.Hex

/-!
# `Settings`: what the environment decides
-/

namespace ActionBook

/-- The values of variables. -/
abbrev Environment := String → Option String

/-- The natural number of 64 bits that a text of decimal digits stands for. A plus sign may stand in
front, nothing else. -/
def parseCount? (text : String) : Option UInt64 :=
  let digits := match text.toList with
    | '+' :: digits => digits
    | digits => digits
  let n := Text.ofDigits 10 digits
  if digits.isEmpty ∨ digits.all Text.isDigit = false ∨ 18446744073709551616 ≤ n then none
  else some (UInt64.ofNat n)

/-- What can be set for a program. -/
structure Settings where
  /-- How many milliseconds a run may take if its action does not say. -/
  executionTimeout : UInt64 := 10000
  logLevel : String := "info"
deriving DecidableEq, Repr

namespace Settings

/-- The variable for the time a run may take. -/
def timeoutVariable : String := "ACTIONHUB_EXECUTION_TIMEOUT_MS"

/-- The variable for the log level. -/
def logLevelVariable : String := "ACTIONHUB_LOG_LEVEL"

/-- The settings in an environment. A time that is no number counts as not set. -/
def ofEnvironment (env : Environment) : Settings :=
  let default : Settings := {}
  { executionTimeout := ((env timeoutVariable).bind parseCount?).getD default.executionTimeout
    logLevel := (env logLevelVariable).getD default.logLevel }

end Settings

end ActionBook
