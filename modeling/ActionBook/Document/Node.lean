import ActionBook.Json.Basic
import ActionBook.Number.Shortest

/-!
# `Document`: trees that keep their faults in place

A document is read in two stages: its notation is turned into a `Node`, whatever it is, and a value
is decoded from the node. A fault of the notation stands in the tree where it was found, so that
decoding, which visits the tree in the order of the text, meets the first of all faults first.

Some faults do not matter where a value is passed over unread, and some end in another way there; a
fault therefore says how it breaks a value that is read and how one that is passed over.
-/

namespace ActionBook

/-- How a notation is broken. -/
inductive Break where
  /-- A character stands where none like it may. -/
  | illFormed
  /-- The text ends before the value does. -/
  | cutShort
deriving DecidableEq, Repr

/-- How a list or a record ends: properly, or by a fault that ends it when it is read, and one that
ends it when it is passed over. -/
inductive Ending where
  | closed
  | broken (read skipped : Break)
deriving DecidableEq, Repr

/-- A value of a document with the faults of its notation. -/
inductive Node where
  | null
  | bool (b : Bool)
  | int (n : Int)
  | float (x : FloatValue)
  | text (s : String)
  | list (items : List Node) (ending : Ending)
  /-- Members in the order of the text; a name that cannot be read is missing. -/
  | record (members : List (Option String × Node)) (ending : Ending)
  /-- A scalar that cannot be read but can be passed over. -/
  | flawed
  /-- A fault that ends the document. -/
  | broken (read skipped : Break)
deriving Inhabited

namespace Node

/-! ## Passing over -/

mutual
/-- The fault met in passing over a value unread, if there is one. -/
def skipFault? : Node → Option Break
  | .list items ending =>
    match skipItems? items with
    | some fault => some fault
    | none => skipEnding? ending
  | .record members ending =>
    match skipMembers? members with
    | some fault => some fault
    | none => skipEnding? ending
  | .broken _ skipped => some skipped
  | _ => none

/-- The first fault met in passing over some items. -/
def skipItems? : List Node → Option Break
  | [] => none
  | item :: items =>
    match skipFault? item with
    | some fault => some fault
    | none => skipItems? items

/-- The first fault met in passing over some members. -/
def skipMembers? : List (Option String × Node) → Option Break
  | [] => none
  | (_, value) :: members =>
    match skipFault? value with
    | some fault => some fault
    | none => skipMembers? members

/-- The fault met at the end of a value that is passed over. -/
def skipEnding? : Ending → Option Break
  | .closed => none
  | .broken _ skipped => some skipped
end

/-! ## Trees without faults -/

mutual
/-- A JSON tree as a node without faults. -/
def ofJson : Json → Node
  | .null => .null
  | .bool b => .bool b
  | .int n => .int n
  | .float x => .float (.finite x)
  | .str s => .text s
  | .arr items => .list (ofItems items) .closed
  | .obj members => .record (ofMembers members) .closed

/-- JSON items as nodes. -/
def ofItems : List Json → List Node
  | [] => []
  | item :: items => ofJson item :: ofItems items

/-- JSON members as members of a node. -/
def ofMembers : List (String × Json) → List (Option String × Node)
  | [] => []
  | (name, value) :: members => (some name, ofJson value) :: ofMembers members
end

end Node

end ActionBook
