import ActionBook.Toml.Basic

/-!
# `Toml.Table`: from assignments and headers to tables

A document assigns values to dotted keys, in sections begun by headers. A table may come about in
three ways, and how it did decides what may still be added to it: no table gets two headers, dotted
keys do not reach into tables with headers, and a value is never extended.
-/

namespace ActionBook.Toml

/-- How a table came about. -/
inductive Origin where
  /-- It has a header of its own. -/
  | headed
  /-- It was passed through by the header of another table. -/
  | implied
  /-- It was passed through by a dotted key. -/
  | dotted
deriving DecidableEq, Repr

/-- What is under a key of a document that is still being read. -/
inductive Draft where
  | value (v : Toml)
  | table (origin : Origin) (members : List (String × Draft))
  /-- Tables with headers of their own under one key. -/
  | tables (elements : List (List (String × Draft)))
deriving Inhabited

/-- The members of a table that is still being read. -/
abbrev Members := List (String × Draft)

/-- A value for a key in the table at the end of a path. -/
structure Assignment where
  path : List String
  key : String
  value : Toml

/-- The header of a section: a table or one more element of an array of tables, under a key in the
table at the end of a path. -/
structure Header where
  isElement : Bool
  path : List String
  key : String

/-- A header with the assignments below it. -/
structure Section where
  header : Header
  assignments : List Assignment

namespace Members

/-- Puts something else under a key that is there. -/
def replace (key : String) (draft : Draft) (members : Members) : Members :=
  members.map fun m => if m.1 = key then (key, draft) else m

/-- Changes the members of the table at the end of a path, adding the tables on the way that are not
there. The way leads through the last element of an array of tables; dotted keys do not lead through
tables with headers. -/
def change (byDots : Bool) (f : Origin → Members → Option Members) :
    (path : List String) → Origin → Members → Option Members
  | [], origin, members => f origin members
  | key :: path, _, members =>
    match members.lookup key with
    | none =>
      let origin := if byDots then Origin.dotted else Origin.implied
      (change byDots f path origin []).map fun inner => members ++ [(key, .table origin inner)]
    | some (.value _) => none
    | some (.table origin inner) =>
      if byDots ∧ origin = .headed then none
      else (change byDots f path origin inner).map fun inner =>
        replace key (.table origin inner) members
    | some (.tables elements) =>
      match elements.getLast? with
      | none => none
      | some last => (change byDots f path .headed last).map fun inner =>
          replace key (.tables (elements.dropLast ++ [inner])) members

/-- Makes an assignment. A dotted key only adds to tables that dotted keys have made. -/
def assign (members : Members) (a : Assignment) : Option Members :=
  change true (fun origin inner =>
    if (origin = .dotted) = a.path.isEmpty then none
    else if (inner.lookup a.key).isSome then none
    else some (inner ++ [(a.key, .value a.value)])) a.path .headed members

/-- Makes assignments one after the other. -/
def assignAll (members : Members) (assignments : List Assignment) : Option Members :=
  assignments.foldlM assign members

/-- Adds a section to the table its header names, in the table at the end of the header's path. -/
def addSection (s : Section) (members : Members) : Option Members :=
  let key := s.header.key
  match s.header.isElement, members.lookup key with
  | true, none => do
    let inner ← assignAll [] s.assignments
    some (members ++ [(key, .tables [inner])])
  | true, some (.tables elements) => do
    let inner ← assignAll [] s.assignments
    some (replace key (.tables (elements ++ [inner])) members)
  | false, none => do
    let inner ← assignAll [] s.assignments
    some (members ++ [(key, .table .headed inner)])
  | false, some (.table .implied inner) => do
    let inner ← assignAll inner s.assignments
    some (members.filter (fun m => m.1 ≠ key) ++ [(key, .table .headed inner)])
  | _, _ => none

/-- Adds a section to a document. -/
def add (members : Members) (s : Section) : Option Members :=
  change false (fun _ inner => addSection s inner) s.header.path .headed members

end Members

/-! ## Finished tables -/

mutual
/-- What is under a key when the document has been read. -/
def Draft.toml : Draft → Toml
  | .value v => v
  | .table _ members => .table (finished members)
  | .tables elements => .array (finishedAll elements)

/-- Members when the document has been read. -/
def finished : List (String × Draft) → List (String × Toml)
  | [] => []
  | (key, draft) :: members => (key, draft.toml) :: finished members

/-- The elements of an array of tables when the document has been read. -/
def finishedAll : List (List (String × Draft)) → List Toml
  | [] => []
  | members :: elements => .table (finished members) :: finishedAll elements
end

/-- The table that assignments make on their own. -/
def tableOf (assignments : List Assignment) : Option Toml :=
  (Members.assignAll [] assignments).map fun members => .table (finished members)

/-- The document of assignments before the first header and of sections. -/
def documentOf (assignments : List Assignment) (sections : List Section) : Option Toml := do
  let members ← Members.assignAll [] assignments
  let members ← sections.foldlM Members.add members
  some (.table (finished members))

end ActionBook.Toml
