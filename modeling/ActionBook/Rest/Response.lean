import ActionBook.Execution.Basic
import ActionBook.Http.Message
import ActionBook.Json.Reader

/-!
# `Rest.Response`: the result of a response

The headers of a response become an object that lists the values of every name. Its body becomes a
JSON value if the response says so and it is one, else a text.
-/

namespace ActionBook.Rest

/-- Octets as a text, with replacements for what is none. -/
def lossyText (o : Text.Octets) : String := String.ofList (Text.decodeLossy o)

/-- Adds a value to the array of its name, or to an empty one. What is no array gives way to the
value. -/
def addValue (members : List (String × JsonValue)) (name : String) (value : JsonValue) :
    List (String × JsonValue) :=
  match members with
  | [] => [(name, ((JsonValue.arr []).push? value).getD value)]
  | (other, entry) :: rest =>
    if other = name then (other, (entry.push? value).getD value) :: rest
    else (other, entry) :: addValue rest name value

/-- All values by name, in the order in which they came. -/
def grouped (headers : List (String × Text.Octets)) : List (String × JsonValue) :=
  headers.foldl (fun members (name, value) => addValue members name (.str (lossyText value))) []

/-- The headers as an object. -/
def headersValue (headers : List (String × Text.Octets)) : JsonValue := .obj (grouped headers)

/-- Whether the octets are visible ASCII, spaces and tabs. -/
def isVisible (o : Text.Octets) : Bool := o.all fun b => b == 0x09 || (0x20 ≤ b && b ≤ 0x7E)

/-- Whether a text occurs in another. -/
def occursIn (part : List Char) : List Char → Bool
  | [] => part.isEmpty
  | c :: rest => part.isPrefixOf (c :: rest) || occursIn part rest

/-- Whether the first content type speaks of JSON. -/
def saysJson (r : Http.Response) : Bool :=
  match r.values "content-type" with
  | [] => false
  | value :: _ => isVisible value && occursIn ['j', 's', 'o', 'n'] (Text.decodeLossy value)

/-- The JSON value that octets stand for, if they do. -/
def jsonOf? (body : Text.Octets) : Option JsonValue :=
  match Text.decode? body with
  | none => none
  | some text =>
    match Json.parse text with
    | .ok value => some value
    | .error _ => none

/-- The value of a body. -/
def bodyValue (body : Text.Octets) (isJson : Bool) : JsonValue :=
  if isJson then (jsonOf? body).getD (.str (lossyText body)) else .str (lossyText body)

/-- Whether a status stands for success. -/
def isSuccess (status : Nat) : Bool := 200 ≤ status && status ≤ 299

/-- The result of a response to a request. -/
def result (r : Http.Response) (sent : SentRequest) : RunResult where
  status := toString r.status
  headers := headersValue r.headers
  body := bodyValue r.body (saysJson r)
  isSuccess := isSuccess r.status
  request := some sent

end ActionBook.Rest
