import ActionBook.Toml.Scalar
import ActionBook.Toml.Table

/-!
# `Toml.Reader`: from text to a document

A document is a text of assignments and headers, each on a line of its own. Values may nest up to a
fixed depth, and the keys of an assignment or a header are bounded in number.
-/

namespace ActionBook.Toml

open Scanner

/-! ## Between values -/

/-- The text after blanks, line breaks and comments. A comment ends with its line; a control
character in it ends it as well, and cannot begin anything else. -/
def skipLines (inComment : Bool) : List Char → List Char
  | [] => []
  | '\r' :: '\n' :: rest => skipLines false rest
  | c :: rest =>
    if c = '\n' then skipLines false rest
    else if inComment && isLineChar c then skipLines true rest
    else if isGap c then skipLines false rest
    else if c = '#' then skipLines true rest
    else c :: rest

/-- Passes over blanks, line breaks and comments. -/
def lines : Scanner Unit := modify (skipLines false)

/-- Passes over blanks on the line. -/
def gap : Scanner Unit := modify (List.dropWhile isGap)

/-- Nothing more on the line but a comment. -/
def lineEnd : Scanner Unit := do
  gap
  match ← get with
  | [] => pure ()
  | '\n' :: _ | '#' :: _ | '\r' :: '\n' :: _ => pure ()
  | _ => failure

/-! ## Keys -/

/-- The number of keys that a dotted key or a header stays below. -/
def keyLimit : Nat := 80

/-- Whether a character may stand in a key without quotes. -/
def isBare (c : Char) : Bool := c.isAlphanum || c = '_' || c = '-'

/-- A key, with blanks around it. -/
def key : Scanner String := do
  gap
  let name ← lineText <|> do
    let first ← satisfy isBare
    return String.ofList (first :: (← takeWhile isBare))
  gap
  return name

/-- Keys with points between them: all but the last, and the last. -/
def keys : Scanner (List String × String) := do
  let names ← separated '.' key
  guard (names.length < keyLimit)
  match names.getLast? with
  | some last => return (names.dropLast, last)
  | none => failure

/-! ## Values -/

/-- How deep arrays and inline tables may nest. -/
def depthLimit : Nat := 79

/-- Values between brackets, on as many lines as they need. -/
def bracketed (value : Scanner Toml) : Scanner Toml := do
  char '['
  let items ← (do
    let items ← separated ',' do lines; let item ← value; lines; return item
    let _ ← optional (char ',')
    return items) <|> pure []
  lines
  char ']'
  return .array items

/-- A value for a key. -/
def assignment (value : Scanner Toml) : Scanner Assignment := do
  let (path, key) ← keys
  char '='
  gap
  return ⟨path, key, ← value⟩

/-- Assignments between braces, on one line. -/
def inlineTable (value : Scanner Toml) : Scanner Toml := do
  char '{'
  let assignments ← separated ',' (do let a ← assignment value; gap; return a) <|> pure []
  gap
  char '}'
  StateT.lift (tableOf assignments)

/-- A value with no more than `depth` levels of arrays and inline tables. -/
def value : (depth : Nat) → Scanner Toml
  | 0 => scalar
  | depth + 1 => scalar <|> bracketed (value depth) <|> inlineTable (value depth)

/-! ## Documents -/

/-- An assignment on a line of its own. -/
def assignmentLine : Scanner Assignment := do
  let a ← assignment (value depthLimit)
  lineEnd
  lines
  return a

/-- A header on a line of its own. -/
def headerLine : Scanner Header := do
  let header ← (do
    word ['[', '[']
    let (path, key) ← keys
    word [']', ']']
    return ⟨true, path, key⟩) <|> do
    char '['
    let (path, key) ← keys
    char ']'
    return ⟨false, path, key⟩
  lineEnd
  lines
  return header

/-- A whole document. -/
def document : Scanner Toml := do
  lines
  let assignments ← many assignmentLine
  let sections ← many do
    let header ← headerLine
    return (⟨header, ← many assignmentLine⟩ : Section)
  guard (← get).isEmpty
  StateT.lift (documentOf assignments sections)

/-- The document of a text, if it is one. A byte order mark in front does not matter. -/
def parse (text : List Char) : Option Toml :=
  match text with
  | '\uFEFF' :: rest => document.run' rest
  | _ => document.run' text

end ActionBook.Toml
