import ActionBook.Http.Chunks
import ActionBook.Text.Blank

/-!
# `Http.Arrival`: what arrives of a response

The headers of a response tell where its body ends: after a number of octets, with the last chunk, or
with the connection. What arrives of it are its headers and what it holds up to there, if there is as
much.
-/

namespace ActionBook.Http

/-! ## Heads -/

/-- Whether a status only announces the response that is to come. -/
def isInterim (status : Nat) : Bool := 100 ≤ status && status < 200 && status ≠ 101

/-- Whether status and headers of a response can be read, and are its last. -/
def Response.isReadable (r : Response) : Bool :=
  100 ≤ r.status && r.status ≤ 999 && !isInterim r.status && r.headers.length ≤ headerLimit &&
    r.headers.all fun h => isHeaderName h.1.toList && isHeaderOctets h.2

/-! ## Bodies -/

/-- Whether there is no body in the response to a request: it tells so itself, or the request does not
ask for one, or a tunnel begins in its place. -/
def isBodiless (method : String) (status : Nat) : Bool :=
  status = 101 || status = 204 || status = 304 || method = "HEAD" ||
    (method = "CONNECT" && 200 ≤ status && status < 300)

/-- The coding of a body that comes in chunks. -/
def chunkedCoding : List Char := ['c', 'h', 'u', 'n', 'k', 'e', 'd']

/-- Whether the last of the codings in a value, with commas between them, is that of chunks. -/
def endsInChunked (value : Text.Octets) : Bool :=
  match ascii? value with
  | none => false
  | some text =>
    (Text.splitOn ',' text).getLast?.any fun last =>
      (Text.trim last).map Char.toLower = chunkedCoding

/-- The number that digits with blanks around them stand for. -/
def number? (text : List Char) : Option Nat :=
  let digits := Text.trim text
  if digits.isEmpty ∨ digits.all Text.isDigit = false then none
  else some (Text.ofDigits 10 digits)

/-- What the pieces of a value, with commas between them, are as numbers. -/
def numbersIn (value : Text.Octets) : List (Option Nat) :=
  match ascii? value with
  | none => [none]
  | some text => (Text.splitOn ',' text).map number?

/-- The greatest length of a body. -/
def lengthLimit : Nat := Nat.pow 2 64 - 3

/-- The length that values tell, if all of them tell the same. -/
def lengthIn? (values : List Text.Octets) : Option Nat :=
  match values.flatMap numbersIn with
  | some length :: others =>
    if others.all (· = some length) && length ≤ lengthLimit then some length else none
  | _ => none

/-- Where a body ends. -/
inductive Framing where
  /-- After a number of octets. -/
  | length (n : Nat)
  /-- With the last of its chunks. -/
  | chunks
  /-- With the connection. -/
  | connection
deriving DecidableEq, Repr

/-- Where the headers tell that the body ends, if they can be understood. Codings go before lengths. -/
def Response.framing? (method : String) (r : Response) : Option Framing :=
  if isBodiless method r.status then some (.length 0)
  else
    match (r.values "transfer-encoding").getLast? with
    | some codings =>
      match r.version with
      | .http10 => none
      | .http11 => some (if endsInChunked codings then .chunks else .connection)
    | none =>
      match r.values "content-length" with
      | [] => some .connection
      | values => (lengthIn? values).map .length

/-- What a body holds that ends there, if all of it is among the octets. -/
def Framing.content? (octets : Text.Octets) : Framing → Option Text.Octets
  | .length n => if n ≤ octets.length then some (octets.take n) else none
  | .chunks => readChunks? extensionRoom octets
  | .connection => some octets

/-! ## Arriving -/

/-- What arrives of a response. -/
structure Arrival where
  /-- Its body is what it holds, or nothing if it is not whole. -/
  response : Response
  /-- Whether the body does not end too early. -/
  isWhole : Bool
deriving DecidableEq, Repr

/-- What arrives of a response to a request with the method, if anything. -/
def Response.received (method : String) (r : Response) : Option Arrival :=
  let r := r.normalised
  if r.isReadable = false then none
  else
    (r.framing? method).map fun framing =>
      let content? := framing.content? r.body
      { response := { r with body := content?.getD [] }, isWhole := content?.isSome }

end ActionBook.Http
