import ActionBook.Json.Basic
import ActionBook.Number.Shortest
import ActionBook.Text.Hex

/-!
# `Json.Printer`: writing a tree

`compact` writes a tree without any blank characters; `pretty` puts every item and every member on a
line of its own, two spaces deeper than its container, and keeps empty containers closed up.
-/

namespace ActionBook.Json

/-- Numbers are positional from `0.00001` up to sixteen places before the point. -/
def numberLayout : DecimalLayout := ⟨some (-4), some 16⟩

/-- How one character is written between quotes: only quotes, backslashes and ASCII controls are
escaped, the controls without a short escape by four digits. -/
def escapedChar (c : Char) : List Char :=
  if c = '"' then ['\\', '"']
  else if c = '\\' then ['\\', '\\']
  else if c = '\x08' then ['\\', 'b']
  else if c = '\t' then ['\\', 't']
  else if c = '\n' then ['\\', 'n']
  else if c = '\x0c' then ['\\', 'f']
  else if c = '\r' then ['\\', 'r']
  else if c.toNat < 0x20 then ['\\', 'u'] ++ Text.zeroPadded 4 (Text.hex c.toNat)
  else [c]

/-- A text between quotes. -/
def quote (s : String) : List Char := '"' :: s.toList.flatMap escapedChar ++ ['"']

/-! ## Without blanks -/

mutual
/-- The tree on one line, without blank characters outside texts. -/
def compact : Json → List Char
  | .null => ['n', 'u', 'l', 'l']
  | .bool true => ['t', 'r', 'u', 'e']
  | .bool false => ['f', 'a', 'l', 's', 'e']
  | .int n => Text.integer n
  | .float x => (numberLayout.write x).toList
  | .str s => quote s
  | .arr items => '[' :: compactItems items ++ [']']
  | .obj members => '{' :: compactMembers members ++ ['}']

/-- Items with commas between them. -/
def compactItems : List Json → List Char
  | [] => []
  | [item] => compact item
  | item :: items => compact item ++ ',' :: compactItems items

/-- Members with commas between them. -/
def compactMembers : List (String × Json) → List Char
  | [] => []
  | [(name, value)] => quote name ++ ':' :: compact value
  | (name, value) :: members => quote name ++ ':' :: compact value ++ ',' :: compactMembers members
end

/-! ## On lines -/

/-- The start of a line at a depth. -/
def newLine (depth : Nat) : List Char := '\n' :: List.replicate (2 * depth) ' '

mutual
/-- The tree on lines, its first one begun at `depth`. -/
def prettyAt (depth : Nat) : Json → List Char
  | .arr [] => ['[', ']']
  | .arr items => '[' :: prettyItems (depth + 1) items ++ newLine depth ++ [']']
  | .obj [] => ['{', '}']
  | .obj members => '{' :: prettyMembers (depth + 1) members ++ newLine depth ++ ['}']
  | .null => ['n', 'u', 'l', 'l']
  | .bool true => ['t', 'r', 'u', 'e']
  | .bool false => ['f', 'a', 'l', 's', 'e']
  | .int n => Text.integer n
  | .float x => (numberLayout.write x).toList
  | .str s => quote s

/-- Items on lines of their own, with commas at the ends of lines. -/
def prettyItems (depth : Nat) : List Json → List Char
  | [] => []
  | [item] => newLine depth ++ prettyAt depth item
  | item :: items => newLine depth ++ prettyAt depth item ++ ',' :: prettyItems depth items

/-- Members on lines of their own, with commas at the ends of lines. -/
def prettyMembers (depth : Nat) : List (String × Json) → List Char
  | [] => []
  | [(name, value)] => newLine depth ++ quote name ++ [':', ' '] ++ prettyAt depth value
  | (name, value) :: members =>
    newLine depth ++ quote name ++ [':', ' '] ++ prettyAt depth value ++
      ',' :: prettyMembers depth members
end

/-- The tree on lines. -/
def pretty (j : Json) : List Char := prettyAt 0 j

/-- The tree as a text without blank characters. -/
def compactText (j : Json) : String := String.ofList (compact j)

/-- The tree as a text on lines. -/
def prettyText (j : Json) : String := String.ofList (pretty j)

end ActionBook.Json
