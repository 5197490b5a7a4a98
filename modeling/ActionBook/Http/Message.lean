import ActionBook.Text.Hex
import ActionBook.Text.Utf8
import ActionBook.Url.Basic

/-!
# `Http.Message`: requests and responses as they travel

What may stand in methods and headers, what a server gets to see of a request, and what it may
answer.
-/

namespace ActionBook.Http

/-! ## What may travel -/

/-- Whether a character may stand in a token. -/
def isTokenChar (c : Char) : Bool :=
  c.isAlphanum || c = '!' || c = '#' || c = '$' || c = '%' || c = '&' || c = '\'' || c = '*' ||
    c = '+' || c = '-' || c = '.' || c = '^' || c = '_' || c.toNat = 0x60 || c = '|' || c = '~'

/-- Whether a text is a token: what methods and the names of headers are. -/
def isToken (text : List Char) : Bool := !text.isEmpty && text.all isTokenChar

/-- The number of characters that the name of a header stays below. -/
def nameLimit : Nat := 65536

/-- Whether a text can be the name of a header. -/
def isHeaderName (text : List Char) : Bool := isToken text && text.length < nameLimit

/-- Whether a text can be the value of a header: it has no controls but tabs in it. -/
def isHeaderValue (text : List Char) : Bool :=
  text.all fun c => c = '\t' || (0x20 ≤ c.toNat && c.toNat ≠ 0x7F)

/-- A text with its ASCII letters in lower case. -/
def lowered (text : String) : String := String.ofList (text.toList.map Char.toLower)

/-! ## Requests -/

/-- A request as a server sees it. -/
structure Request where
  method : String
  /-- The address, without user and fragment. -/
  target : String
  /-- Names in lower case with their values. -/
  headers : List (String × String)
  body : Option String
deriving DecidableEq, Repr

/-! ## Responses -/

/-- The versions of the protocol; the older one has no codings of bodies. -/
inductive Version where
  | http10
  | http11
deriving DecidableEq, Repr

/-- A response of a server. -/
structure Response where
  status : Nat := 200
  headers : List (String × Text.Octets) := []
  /-- All octets after the headers, up to the end of the connection. -/
  body : Text.Octets := []
  version : Version := .http11
deriving DecidableEq, Repr

/-- What becomes of a request at a server. -/
inductive Exchange where
  | answered (r : Response)
  /-- The connection ends without an answer. -/
  | dropped
  /-- There is never an answer. -/
  | silent
deriving DecidableEq, Repr

/-- Whether an octet is a space or a tab. -/
def isGap (b : UInt8) : Bool := b == 0x20 || b == 0x09

/-- The octets without the spaces and tabs at their ends. -/
def trimmedOctets (o : Text.Octets) : Text.Octets :=
  ((o.dropWhile isGap).reverse.dropWhile isGap).reverse

namespace Response

/-- The values of a header, in order. -/
def values (r : Response) (name : String) : List Text.Octets :=
  (r.headers.filter fun h => h.1 = name).map Prod.snd

/-- The response with names in lower case and values without blanks at their ends. -/
def normalised (r : Response) : Response :=
  { r with headers := r.headers.map fun h => (lowered h.1, trimmedOctets h.2) }

end Response

/-! ## Headers that arrive -/

/-- The number of headers that a response may have. -/
def headerLimit : Nat := 100

/-- Whether octets can be the value of a header: there are no controls but tabs among them. -/
def isHeaderOctets (value : Text.Octets) : Bool :=
  value.all fun b => b == 0x09 || (0x20 ≤ b && b ≠ 0x7F)

/-- The text of octets that are ASCII. -/
def ascii? (o : Text.Octets) : Option (List Char) :=
  if o.all (· < 0x80) then some (Text.decodeLossy o) else none

end ActionBook.Http
