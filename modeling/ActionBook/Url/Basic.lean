import ActionBook.Url.Host

/-!
# `Url`: addresses in their parts

An address is held in parts that are already escaped; `Url.write` puts them together.
-/

namespace ActionBook

/-- The path of an address. -/
inductive Url.Path where
  /-- A path without structure. -/
  | whole (text : List Char)
  /-- Segments, each after a slash. -/
  | segments (segments : List (List Char))
deriving DecidableEq, Repr

/-- An address. -/
structure Url where
  scheme : List Char
  username : List Char := []
  /-- The password; there is none that is empty. -/
  password : Option (List Char) := none
  /-- The host, if the address has a place for one; its name may be empty. -/
  host : Option Url.Host := none
  /-- The port, if it is not the one that belongs to the scheme. -/
  port : Option Nat := none
  path : Url.Path
  query : Option (List Char) := none
  fragment : Option (List Char) := none
deriving DecidableEq, Repr

namespace Url

/-- The text of a path. -/
def Path.write : Path → List Char
  | .whole text => text
  | .segments parts => parts.flatMap fun segment => '/' :: segment

/-- User name and password, if there are any. -/
def writeUser (u : Url) : List Char :=
  match u.username, u.password with
  | [], none => []
  | username, none => username ++ ['@']
  | username, some password => username ++ ':' :: password ++ ['@']

/-- Host and port. -/
def writeHost (u : Url) : List Char :=
  match u.host with
  | none => []
  | some host => host.write ++ match u.port with
    | none => []
    | some port => ':' :: Text.decimal port

/-- What stands between scheme and path. A path that begins with an empty segment is kept apart from
what could be taken for a host. -/
def writeAuthority (u : Url) : List Char :=
  match u.host, u.path with
  | some _, _ => ['/', '/'] ++ u.writeUser ++ u.writeHost
  | none, .segments ([] :: _ :: _) => ['/', '.']
  | none, _ => []

/-- The query after a question mark, if there is one. -/
def writeQuery (u : Url) : List Char :=
  match u.query with
  | none => []
  | some query => '?' :: query

/-- The fragment after its sign, if there is one. -/
def writeFragment (u : Url) : List Char :=
  match u.fragment with
  | none => []
  | some fragment => '#' :: fragment

/-- The text of an address up to its query. -/
def writeTarget (u : Url) : List Char :=
  u.scheme ++ ':' :: u.writeAuthority ++ u.path.write ++ u.writeQuery

/-- The text of an address. -/
def write (u : Url) : List Char := u.writeTarget ++ u.writeFragment

/-- The text of an address. -/
def text (u : Url) : String := String.ofList u.write

/-- The address without user name and password. -/
def withoutUser (u : Url) : Url := { u with username := [], password := none }

end Url

end ActionBook
