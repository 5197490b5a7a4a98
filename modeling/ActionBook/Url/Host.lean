import ActionBook.Text.Blank
import ActionBook.Url.Percent

/-!
# `Url.Host`: names and numbers of hosts

A host is given by name or by number. Under the schemes that are about hosts a name is put into ASCII
and lower case, a name that ends in a number is an address of four octets in any of its notations, and
brackets hold an address of eight pieces. Under all other schemes names are left as they are.

How an international name is put into ASCII takes tables of Unicode. They are not part of this library,
which leaves this open (`Idna`).
-/

namespace ActionBook.Url

/-- Why a text is no address. -/
inductive ParseError where
  | relative
  | emptyHost
  | invalidPort
  | invalidOctets
  | invalidPieces
  | invalidName
  | invalidHostCharacter
deriving DecidableEq, Repr

/-- The message of an error. -/
def ParseError.message : ParseError → String
  | .relative => "relative URL without a base"
  | .emptyHost => "empty host"
  | .invalidPort => "invalid port number"
  | .invalidOctets => "invalid IPv4 address"
  | .invalidPieces => "invalid IPv6 address"
  | .invalidName => "invalid international domain name"
  | .invalidHostCharacter => "invalid domain character"

/-- A host: its name, the number that four octets make, or eight pieces of two octets each. -/
inductive Host where
  | name (text : List Char)
  | octets (n : Nat)
  | pieces (numbers : List Nat)
deriving DecidableEq, Repr

/-- How names are put into ASCII that have to do with characters beyond it. -/
class Idna where
  /-- The name in ASCII and in lower case, if there is one. -/
  toAscii? (name : List Char) : Option (List Char)

namespace Host

/-! ## Four octets -/

/-- The number that a part of an address stands for: hexadecimal after `0x`, octal after `0`, else
decimal. -/
def number? (part : List Char) : Option Nat :=
  let read (base : Nat) (digits : List Char) : Option Nat :=
    if digits.all (Text.isDigitIn base) then some (Text.ofDigits base digits) else none
  match part with
  | [] => none
  | '0' :: 'x' :: digits | '0' :: 'X' :: digits => read 16 digits
  | '0' :: d :: digits => read 8 (d :: digits)
  | digits => read 10 digits

/-- The parts of a name between its dots, without an empty one at the end. -/
def parts (name : List Char) : List (List Char) :=
  let parts := Text.splitOn '.' name
  if parts.getLast? = some [] then parts.dropLast else parts

/-- Whether the last part of a name is a number or consists of digits, so that the name has to be an
address. -/
def endsInNumber (name : List Char) : Bool :=
  match (parts name).getLast? with
  | none => false
  | some last => (!last.isEmpty && last.all Text.isDigit) || (number? last).isSome

/-- The number that an address makes: every part but the last is an octet, and the last one fills up
what is left. -/
def ofParts? (numbers : List Nat) : Option Nat :=
  match numbers.getLast? with
  | none => none
  | some last =>
    let octets := numbers.dropLast
    let room := Nat.pow 256 (4 - octets.length)
    if 3 < octets.length ∨ octets.any (fun n => 255 < n) ∨ room ≤ last then none
    else some (octets.foldl (fun n octet => n * 256 + octet) 0 * room + last)

/-- The address of four octets that a name stands for. -/
def ofName? (name : List Char) : Option Nat := ((parts name).mapM number?).bind ofParts?

/-- Four octets with dots between them. -/
def writeOctets (n : Nat) : List Char :=
  Text.decimal (n / 16777216) ++ '.' :: Text.decimal (n / 65536 % 256) ++
    '.' :: Text.decimal (n / 256 % 256) ++ '.' :: Text.decimal (n % 256)

/-! ## Eight pieces -/

/-- Pieces of an address that is being read: those before the gap of zeros, and those after it if
there is one. -/
structure Reading where
  before : List Nat
  after : Option (List Nat)

namespace Reading

/-- How many pieces there are at least; a gap is one. -/
def count (r : Reading) : Nat :=
  r.before.length + match r.after with
    | none => 0
    | some after => after.length + 1

/-- The address with one more piece. -/
def push (r : Reading) (piece : Nat) : Reading :=
  match r.after with
  | none => { r with before := r.before ++ [piece] }
  | some after => { r with after := some (after ++ [piece]) }

/-- All eight pieces. -/
def pieces? (r : Reading) : Option (List Nat) :=
  match r.after with
  | none => if r.before.length = 8 then some r.before else none
  | some after =>
    some (r.before ++ List.replicate (8 - r.before.length - after.length) 0 ++ after)

end Reading

/-- A decimal octet without needless zeros in front. -/
def octet? (digits : List Char) : Option Nat :=
  match digits with
  | [] => none
  | '0' :: _ :: _ => none
  | _ =>
    let n := Text.ofDigits 10 digits
    if digits.all Text.isDigit ∧ n ≤ 255 then some n else none

/-- The last two pieces, written as four octets. -/
def octetPieces? (text : List Char) : Option (Nat × Nat) :=
  match (Text.splitOn '.' text).mapM octet? with
  | some [a, b, c, d] => some (a * 256 + b, c * 256 + d)
  | _ => none

/-- Reads pieces of up to four hexadecimal digits with colons between them, a gap where two colons
meet, and four octets in place of the last two pieces. -/
def readPieces (r : Reading) (text : List Char) : Option Reading :=
  match text with
  | [] => some r
  | ':' :: rest =>
    if r.count = 8 ∨ r.after.isSome then none else readPieces { r with after := some [] } rest
  | c :: rest =>
    let digits := ((c :: rest).take 4).takeWhile (Text.isDigitIn 16)
    let piece := Text.ofDigits 16 digits
    if r.count = 8 then none
    else
      match h : (c :: rest).drop digits.length with
      | [] => some (r.push piece)
      | '.' :: _ =>
        if digits.isEmpty ∨ 6 < r.count then none
        else (octetPieces? (c :: rest)).map fun (a, b) => (r.push a).push b
      | ':' :: left =>
        have : left.length < rest.length + 1 := by
          have := congrArg List.length h
          simp only [List.length_drop, List.length_cons] at this
          omega
        if left.isEmpty then none else readPieces (r.push piece) left
      | _ => none
termination_by text.length

/-- The eight pieces of an address. -/
def ofBrackets? (text : List Char) : Option (List Nat) :=
  let reading? :=
    match text with
    | ':' :: ':' :: rest => readPieces ⟨[], some []⟩ rest
    | [] | ':' :: _ => none
    | _ => readPieces ⟨[], none⟩ text
  reading?.bind Reading.pieces?

/-- Where the first longest stretch of zeros begins, and how long it is. -/
def longestZeros (pieces : List Nat) : Nat × Nat :=
  (List.range pieces.length).foldl (fun (start, length) i =>
    let zeros := ((pieces.drop i).takeWhile (· = 0)).length
    if length < zeros then (i, zeros) else (start, length)) (0, 0)

/-- Pieces with colons between them. -/
def joinPieces (pieces : List Nat) : List Char :=
  List.intercalate [':'] (pieces.map Text.hex)

/-- Eight pieces, with the longest stretch of two zeros or more left out. -/
def writePieces (pieces : List Nat) : List Char :=
  let (start, length) := longestZeros pieces
  if length < 2 then joinPieces pieces
  else joinPieces (pieces.take start) ++ [':', ':'] ++ joinPieces (pieces.drop (start + length))

/-! ## Hosts -/

/-- What no name may contain: controls, blanks, what separates the parts of an address, and
everything beyond ASCII. -/
def isForbidden (c : Char) : Bool :=
  !isPlain c || c = ' ' || c = '%' || c = '#' || c = '/' || c = ':' || c = '<' || c = '>' ||
    c = '?' || c = '@' || c = '[' || c = '\\' || c = ']' || c = '^' || c = '|'

/-- Whether a part of a name stands for one beyond ASCII. -/
def isEncoded (part : List Char) : Bool := (part.take 4).map Char.toLower = ['x', 'n', '-', '-']

/-- Whether a name has nothing to do with characters beyond ASCII. -/
def isPlainName (name : List Char) : Bool :=
  name.all (·.toNat < 0x80) && !(Text.splitOn '.' name).any isEncoded

/-- The name in ASCII and in lower case. -/
def toAscii? [Idna] (name : List Char) : Option (List Char) :=
  if isPlainName name then some (name.map Char.toLower) else Idna.toAscii? name

/-- The host that a name in ASCII stands for. -/
def ofAscii (name : List Char) : Except ParseError Host :=
  if name.isEmpty then .error .emptyHost
  else if name.any isForbidden then .error .invalidName
  else if endsInNumber name then
    match ofName? name with
    | some n => .ok (.octets n)
    | none => .error .invalidOctets
  else .ok (.name name)

/-- What no name may contain where names are left as they are. -/
def isForbiddenAsIs (c : Char) : Bool :=
  c.toNat = 0 || c = '\t' || c = '\n' || c = '\r' || c = ' ' || c = '#' || c = '/' || c = ':' ||
    c = '<' || c = '>' || c = '?' || c = '@' || c = '[' || c = '\\' || c = ']' || c = '^' || c = '|'

/-- The address in brackets whose first one has been read. -/
def ofBracketed (rest : List Char) : Except ParseError Host :=
  match rest.getLast?, ofBrackets? rest.dropLast with
  | some ']', some numbers => .ok (.pieces numbers)
  | _, _ => .error .invalidPieces

/-- The host that a text names under a scheme that is about hosts. What is forbidden in ASCII is so in
every name, before and after it is put into ASCII. -/
def ofText [Idna] (text : List Char) : Except ParseError Host :=
  match text with
  | [] => .error .emptyHost
  | '[' :: rest => ofBracketed rest
  | _ =>
    match Text.decode? (unescaped (Text.encode text)) with
    | none => .error .invalidName
    | some decoded =>
      if decoded.any fun c => c.toNat < 0x80 && isForbidden c then .error .invalidName
      else
        match toAscii? decoded with
        | none => .error .invalidName
        | some ascii => ofAscii ascii

/-- The host that a text names under any other scheme. -/
def ofTextAsIs (text : List Char) : Except ParseError Host :=
  match text with
  | '[' :: rest => ofBracketed rest
  | _ =>
    if text.any isForbiddenAsIs then .error .invalidHostCharacter
    else .ok (.name (escaped isPlain text))

/-- The text of a host. -/
def write : Host → List Char
  | .name text => text
  | .octets n => writeOctets n
  | .pieces numbers => '[' :: writePieces numbers ++ [']']

/-- Whether there is no name. -/
def isEmpty : Host → Bool
  | .name [] => true
  | _ => false

end Host

end ActionBook.Url
