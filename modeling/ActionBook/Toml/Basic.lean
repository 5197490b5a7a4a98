import ActionBook.Document.Node

/-!
# `Toml`: values of a configuration file

A TOML document is a table. Its members stay in the order in which they were first mentioned.
-/

namespace ActionBook

/-- A TOML value. -/
inductive Toml where
  | text (s : String)
  | int (n : Int)
  | float (x : FloatValue)
  | bool (b : Bool)
  /-- A date, a time of day or both, as it was written. -/
  | moment (s : String)
  | array (items : List Toml)
  | table (members : List (String × Toml))
deriving Inhabited

namespace Toml

/-- The name of the one member that a moment has when it is read as a record. -/
def momentMember : String := "moment"

mutual
/-- The value as a node to decode from. A moment is a record, so it is none of the other scalars. -/
def node : Toml → Node
  | .text s => .text s
  | .int n => .int n
  | .float x => .float x
  | .bool b => .bool b
  | .moment s => .record [(some momentMember, .text s)] .closed
  | .array items => .list (nodes items) .closed
  | .table members => .record (memberNodes members) .closed

/-- Items as nodes. -/
def nodes : List Toml → List Node
  | [] => []
  | item :: items => node item :: nodes items

/-- Members as members of a node. -/
def memberNodes : List (String × Toml) → List (Option String × Node)
  | [] => []
  | (name, value) :: members => (some name, node value) :: memberNodes members
end

end Toml

end ActionBook
