import ActionBook.Action.Derived
import ActionBook.Plugin.Basic
import ActionBook.Store.Repository

/-!
# `Service`: the state that operations on actions work on

A `Service` holds what stays the same: the plugins, the default time a run may take, and where new
ids and the time of day come from. A `Ledger` holds what changes: the repository, and how many ids
and moments have been used up. An operation is a step from ledger to ledger that may fail; after a
failure the ledger is the one reached until then.
-/

namespace ActionBook

/-- What operations on actions rely on. -/
structure Service (World : Type) where
  plugins : Registry World := {}
  /-- How many milliseconds a run may take if its action does not say. -/
  defaultTimeout : UInt64 := 10000
  /-- The ids given to actions that come without one, in order. -/
  ids : Nat → ActionId
  /-- The moments of successful writes, in order. -/
  clock : Nat → Timestamp

/-- What operations on actions change. -/
structure Ledger where
  repository : Repository := {}
  /-- How many ids have been given. -/
  issued : Nat := 0
  /-- How many writes have succeeded. -/
  written : Nat := 0

/-- An operation on actions. -/
abbrev Operation (α : Type) := EStateM ActionError Ledger α

namespace Operation

/-- A call to the repository as an operation. -/
def ofCall {α : Type} (call : EStateM ActionError Repository α) : Operation α := fun ledger =>
  match call ledger.repository with
  | .ok x repository => .ok x { ledger with repository }
  | .error e repository => .error e { ledger with repository }

/-- The value, or the failure if there is none. -/
def orFail {α : Type} (e : ActionError) : Option α → Operation α
  | some x => pure x
  | none => throw e

end Operation

end ActionBook
