import ActionBook.Http.Client
import ActionBook.Url.Form

/-!
# `Rest.Request`: the request of an action

The address of a request is put together from the datasource's, the path and the query parameters of
the template. Its headers are the datasource's and the template's, each name once.
-/

namespace ActionBook.Rest

/-! ## Method -/

/-- The method in upper case. -/
def method (written : String) : Except PluginError String :=
  let token := (Text.trim written.toList).map Char.toUpper
  if Http.isToken token then .ok (String.ofList token)
  else .error (.configuration s!"invalid HTTP method '{written}'")

/-! ## Address -/

/-- The text without the slashes at its front. -/
def withoutLeadingSlashes (text : List Char) : List Char := text.dropWhile (· = '/')

/-- The text without the slashes at its end. -/
def withoutTrailingSlashes (text : List Char) : List Char :=
  (text.reverse.dropWhile (· = '/')).reverse

/-- A base and a path with one slash between them; the base alone, if there is no path. -/
def join (base path : List Char) : List Char :=
  if path.isEmpty then base
  else withoutTrailingSlashes base ++ '/' :: withoutLeadingSlashes path

/-- The parameters that have a name, as pairs. -/
def namedPairs (query : List Property) : List (String × String) :=
  (query.filter fun p => !Text.isBlankText p.key).map fun p => (p.key, p.value)

/-- The address of a request. -/
def url [Url.Idna] (base path : String) (query : List Property) : Except PluginError Url :=
  let joined := join base.toList path.toList
  match Url.parse joined with
  | .error e =>
    .error (.configuration s!"invalid url '{String.ofList joined}': {e.message}")
  | .ok url => .ok { url with query := Url.appendPairs url.query (namedPairs query) }

/-! ## Headers -/

/-- Whether two names are the same up to the case of ASCII letters. -/
def sameName (a b : String) : Bool := Http.lowered a = Http.lowered b

/-- Puts a header in the place of the one with its name, or at the end. -/
def putHeader (merged : List Property) (header : Property) : List Property :=
  match merged with
  | [] => [header]
  | other :: rest =>
    if sameName other.key header.key then header :: rest else other :: putHeader rest header

/-- The headers of both lists, each name once and with its last value; those without a name are left
out. -/
def mergedHeaders (base overrides : List Property) : List Property :=
  ((base ++ overrides).filter fun h => !Text.isBlankText h.key).foldl putHeader []

/-! ## Request -/

/-- The request of a template at a datasource, and how it is reported. -/
def request [Url.Idna] (d : Datasource) (t : RequestTemplate) :
    Except PluginError (Http.Outgoing × SentRequest) := do
  let method ← method t.method
  let url ← url d.url t.path t.query
  let headers := mergedHeaders d.headers t.headers
  let body := t.body.filter fun b => !b.isEmpty
  let outgoing ← Http.outgoing method url headers body
  return (outgoing, { method, url := url.text, headers, body })

end ActionBook.Rest
