import ActionBook.Document.Node
import ActionBook.Text.Quoted
import ActionBook.TextSet
import ActionBook.Timestamp.Parser

/-!
# `Document.Decoder`: values out of documents

A `Decoder` turns a node into a value or says why it cannot. `Reading` holds what depends on the
notation the node came from: how deep values may nest, how floating-point numbers are shown, and
what becomes of items beyond the last field of a record that is written as a list.
-/

namespace ActionBook

/-- Why a document holds no value of the kind that was asked for. -/
inductive DecodeError where
  /-- A record lacks a field. -/
  | missingField (name : String)
  /-- A record has a field twice. -/
  | duplicateField (name : String)
  /-- A value is of another kind than the expected one; both are described. -/
  | wrongKind (found expected : String)
  /-- A whole number is out of range. -/
  | outOfRange (n : Int) (expected : String)
  /-- A list has the wrong number of items. -/
  | wrongLength (length : Nat) (expected : String)
  /-- A text is not a moment. -/
  | timestamp (cause : Timestamp.ParseError)
  /-- The notation itself is broken. -/
  | malformed (cause : Break)
deriving DecidableEq, Repr

/-- What is said about a document that holds no such value; nothing about a broken notation. -/
def DecodeError.message? : DecodeError → Option String
  | .missingField name => some s!"missing field `{name}`"
  | .duplicateField name => some s!"duplicate field `{name}`"
  | .wrongKind found expected => some s!"invalid type: {found}, expected {expected}"
  | .outOfRange n expected => some s!"invalid value: integer `{n}`, expected {expected}"
  | .wrongLength length expected => some s!"invalid length {length}, expected {expected}"
  | .timestamp cause => some cause.message
  | .malformed _ => none

/-! ## Readings -/

/-- What becomes of items beyond the last field of a record that is written as a list. -/
inductive Surplus where
  /-- They are an error that tells how many items there are. -/
  | counted
  /-- They break the notation. -/
  | illFormed
  /-- They are passed over. -/
  | ignored
deriving DecidableEq, Repr

/-- What depends on the notation that a node came from. -/
structure Reading where
  /-- How many more levels may be entered; any number if nothing is said. -/
  levels : Option Nat
  /-- How floating-point numbers are shown in messages. -/
  floats : DecimalLayout
  surplus : Surplus

/-- The reading one level deeper, unless there are no levels left. -/
def Reading.deeper (r : Reading) : Except DecodeError Reading :=
  match r.levels with
  | none => .ok r
  | some 0 => .error (.malformed .illFormed)
  | some (levels + 1) => .ok { r with levels := some levels }

/-- A way to get a value out of a node. -/
abbrev Decoder (α : Type) := Reading → Node → Except DecodeError α

/-! ## Errors -/

/-- The error of meeting a node where a value of another kind is expected. A fault of the notation
comes first. -/
def Node.mismatch (r : Reading) (expected : String) : Node → DecodeError
  | .null => .wrongKind "null" expected
  | .bool b => .wrongKind (if b then "boolean `true`" else "boolean `false`") expected
  | .int n => .wrongKind s!"integer `{String.ofList (Text.integer n)}`" expected
  | .float x => .wrongKind s!"floating point `{x.write r.floats}`" expected
  | .text s => .wrongKind s!"string {Text.quoted s}" expected
  | .list _ _ => .wrongKind "sequence" expected
  | .record _ _ => .wrongKind "map" expected
  | .flawed => .malformed .illFormed
  | .broken read _ => .malformed read

/-- An end that is a fault is an error to a reader. -/
def Ending.check : Ending → Except DecodeError Unit
  | .closed => .ok ()
  | .broken read _ => .error (.malformed read)

namespace Decoder

/-! ## Scalars -/

/-- A text. -/
def text : Decoder String
  | _, .text s => .ok s
  | r, node => .error (node.mismatch r "a string")

/-- A truth value. -/
def flag : Decoder Bool
  | _, .bool b => .ok b
  | r, node => .error (node.mismatch r "a boolean")

/-- A natural number of 64 bits. -/
def count : Decoder UInt64
  | r, node =>
    match node with
    | .int n =>
      if 0 ≤ n ∧ n < 18446744073709551616 then .ok (UInt64.ofNat n.toNat)
      else .error (.outOfRange n "u64")
    | _ => .error (node.mismatch r "u64")

/-- A moment, given as a text. -/
def time : Decoder Timestamp
  | r, node =>
    match node with
    | .text s =>
      match Timestamp.parse s.toList with
      | .ok t => .ok t
      | .error cause => .error (.timestamp cause)
    | _ => .error (node.mismatch r "an RFC 3339 formatted date and time string")

/-! ## Containers -/

/-- Nothing for null, else a value. -/
def optional {α : Type} (decode : Decoder α) : Decoder (Option α)
  | _, .null => .ok none
  | r, node => (decode r node).map some

/-- The values of some items, up to the first error. -/
def items {α : Type} (decode : Decoder α) (r : Reading) : List Node → Except DecodeError (List α)
  | [] => .ok []
  | node :: nodes => do
    let value ← decode r node
    let values ← items decode r nodes
    .ok (value :: values)

/-- The values of a list. -/
def listOf {α : Type} (decode : Decoder α) : Decoder (List α)
  | r, node =>
    match node with
    | .list nodes ending => do
      let inner ← r.deeper
      let values ← items decode inner nodes
      ending.check
      .ok values
    | _ => .error (node.mismatch r "a sequence")

/-- The texts of a list as a set. -/
def textSet : Decoder TextSet
  | r, node => (listOf text r node).map TextSet.ofList

/-! ## Free values -/

mutual
/-- Any tree; an object keeps the last of members with equal names, in ascending order. -/
def freeTree (r : Reading) : Node → Except DecodeError JsonValue
  | .null => .ok .null
  | .bool b => .ok ⟨.bool b, by simp [Json.Canonical]⟩
  | .int n => .ok ⟨.int n, by simp [Json.Canonical]⟩
  | .float (.finite x) => .ok ⟨.float x, by simp [Json.Canonical]⟩
  | .float _ => .error (.malformed .illFormed)
  | .text s => .ok (.str s)
  | .list nodes ending => do
    let inner ← r.deeper
    let values ← freeItems inner nodes
    ending.check
    .ok (.arr values)
  | .record nodes ending => do
    let inner ← r.deeper
    let values ← freeMembers inner nodes
    ending.check
    .ok (.obj values)
  | .flawed => .error (.malformed .illFormed)
  | .broken read _ => .error (.malformed read)

/-- Any trees. -/
def freeItems (r : Reading) : List Node → Except DecodeError (List JsonValue)
  | [] => .ok []
  | node :: nodes => do
    let value ← freeTree r node
    let values ← freeItems r nodes
    .ok (value :: values)

/-- Any trees with their names. -/
def freeMembers (r : Reading) :
    List (Option String × Node) → Except DecodeError (List (String × JsonValue))
  | [] => .ok []
  | (none, _) :: _ => .error (.malformed .illFormed)
  | (some name, node) :: nodes => do
    let value ← freeTree r node
    let values ← freeMembers r nodes
    .ok ((name, value) :: values)
end

/-- Any value. -/
def free : Decoder JsonValue := freeTree

end Decoder

end ActionBook
