import ActionBook.TextSet
import ActionBook.Timestamp.Basic

/-!
# `Action`: named requests that can be run

An action names a request to be made with the help of a plugin: where it goes (`Datasource`) and
what it asks for (`RequestTemplate`), with bindings in its texts. The other fields of an action are
derived from these or kept by the store.
-/

namespace ActionBook

/-- What identifies a stored action. -/
structure ActionId where
  text : String
deriving DecidableEq, Repr, Inhabited

/-- A key with a value: a header or a query parameter. -/
structure Property where
  key : String
  value : String := ""
deriving DecidableEq, Repr, Inhabited

/-- Where requests go. -/
structure Datasource where
  name : String
  url : String
  headers : List Property := []
deriving DecidableEq, Repr, Inhabited

/-- What a request asks for. Its path, body and the values of its headers and query parameters are
templates. -/
structure RequestTemplate where
  method : String := "GET"
  path : String := ""
  headers : List Property := []
  query : List Property := []
  body : Option String := none
  /-- How many milliseconds a run may take, if it is not the default. -/
  timeout : Option UInt64 := none
deriving DecidableEq, Repr, Inhabited

/-- A named request with its state in the store. -/
structure Action where
  id : Option ActionId := none
  name : String
  plugin : String
  datasource : Option Datasource := none
  template : RequestTemplate := {}
  /-- The keys of all bindings of the template. -/
  bindingKeys : TextSet := .empty
  isValid : Bool := true
  /-- Why the action cannot be run. -/
  invalids : TextSet := .empty
  createdAt : Option Timestamp := none
  updatedAt : Option Timestamp := none
deriving DecidableEq

namespace Datasource

/-- The datasource with one more header. -/
def withHeader (d : Datasource) (key value : String) : Datasource :=
  { d with headers := d.headers ++ [⟨key, value⟩] }

end Datasource

namespace RequestTemplate

/-- The template with one more header. -/
def withHeader (t : RequestTemplate) (key value : String) : RequestTemplate :=
  { t with headers := t.headers ++ [⟨key, value⟩] }

/-- The template with one more query parameter. -/
def withQuery (t : RequestTemplate) (key value : String) : RequestTemplate :=
  { t with query := t.query ++ [⟨key, value⟩] }

end RequestTemplate

end ActionBook
