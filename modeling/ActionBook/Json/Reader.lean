import ActionBook.Document.Decoder
import ActionBook.Json.Printer
import ActionBook.Text.Utf8

/-!
# `Json.Reader`: from text to nodes

`readValue` turns the JSON text at the front of a list of characters into a node, with the faults of
the notation in their places, and gives the text after it, unless a fault ended the reading. The
notation is strict: no blank characters but space, tab, line feed and carriage return, no leading
zeros or plus signs, no bare control characters, and escapes of surrogates only in pairs.

A text or number that cannot be read may still be passed over: a lone surrogate and a number beyond
all floating-point numbers spoil a value only for those who read it.
-/

namespace ActionBook.Json

/-- The blank characters between tokens. -/
def isGap (c : Char) : Bool := c = ' ' || c = '\n' || c = '\t' || c = '\r'

/-- The text after the blank characters at its front. -/
def skipGap (text : List Char) : List Char := text.dropWhile isGap

/-! ## Texts -/

/-- What one character or escape of a text stands for: a character, or half of a surrogate pair. -/
inductive TextUnit where
  | char (c : Char)
  | half (n : Nat)
deriving DecidableEq, Repr

/-- Whether a number is half of a surrogate pair. -/
def isSurrogate (n : Nat) : Bool := 0xD800 ≤ n && n ≤ 0xDFFF

/-- Whether a number is the first half of a surrogate pair. -/
def isHighSurrogate (n : Nat) : Bool := 0xD800 ≤ n && n ≤ 0xDBFF

/-- Whether a number is the second half of a surrogate pair. -/
def isLowSurrogate (n : Nat) : Bool := 0xDC00 ≤ n && n ≤ 0xDFFF

/-- The code point of a surrogate pair. -/
def pairValue (high low : Nat) : Nat := (high - 0xD800) * 0x400 + (low - 0xDC00) + 0x10000

/-- What the escape of a number stands for. -/
def TextUnit.ofNumber (n : Nat) : TextUnit :=
  if isSurrogate n then .half n else .char (Char.ofNat n)

/-- The characters of a text, if its halves stand in pairs. -/
def joinUnits : List TextUnit → Option (List Char)
  | [] => some []
  | .char c :: units => (joinUnits units).map (c :: ·)
  | [.half _] => none
  | .half high :: .half low :: units =>
    if isHighSurrogate high ∧ isLowSurrogate low then
      (joinUnits units).map (Char.ofNat (pairValue high low) :: ·)
    else none
  | .half _ :: .char _ :: _ => none

/-- Whether the units read before a fault can be read: a first half at the end might still have got
its second one. -/
def areReadable (units : List TextUnit) : Bool :=
  match units.getLast? with
  | some (.half n) =>
    (joinUnits units).isSome || (isHighSurrogate n && (joinUnits units.dropLast).isSome)
  | _ => (joinUnits units).isSome

/-- The value of four hexadecimal digits. -/
def fourDigits? (a b c d : Char) : Option Nat :=
  match Text.digitValue? a, Text.digitValue? b, Text.digitValue? c, Text.digitValue? d with
  | some a, some b, some c, some d => some (((a * 16 + b) * 16 + c) * 16 + d)
  | _, _, _, _ => none

/-- The fault of an escape without four hexadecimal digits at the front of `rest`: the text is cut
short if fewer than four octets are left. -/
def digitsFault (rest : List Char) : Break :=
  if Text.octetCount (rest.take 4) < 4 then .cutShort else .illFormed

/-- The character of a one-letter escape. -/
def escapeLetter? (c : Char) : Option Char :=
  if c = '"' then some '"'
  else if c = '\\' then some '\\'
  else if c = '/' then some '/'
  else if c = 'b' then some '\x08'
  else if c = 'f' then some '\x0c'
  else if c = 'n' then some '\n'
  else if c = 'r' then some '\r'
  else if c = 't' then some '\t'
  else none

/-- The units of a text up to its closing quote, and the text after that or the fault before it. -/
def scanUnits : List Char → List TextUnit × Except Break (List Char)
  | [] => ([], .error .cutShort)
  | '"' :: rest => ([], .ok rest)
  | ['\\'] => ([], .error .cutShort)
  | '\\' :: 'u' :: a :: b :: c :: d :: rest =>
    match fourDigits? a b c d with
    | none => ([], .error (digitsFault (a :: b :: c :: d :: rest)))
    | some n =>
      let (units, rest?) := scanUnits rest
      (.ofNumber n :: units, rest?)
  | '\\' :: 'u' :: rest => ([], .error (digitsFault rest))
  | '\\' :: c :: rest =>
    match escapeLetter? c with
    | none => ([], .error .illFormed)
    | some e =>
      let (units, rest?) := scanUnits rest
      (.char e :: units, rest?)
  | c :: rest =>
    if c.toNat < 0x20 then ([], .error .illFormed)
    else
      let (units, rest?) := scanUnits rest
      (.char c :: units, rest?)
termination_by structural text => text

/-- A text after its opening quote: its content with what follows, or the fault that ends it. A text
that can only be passed over has no content. -/
inductive Scan where
  | done (content : Option (List Char)) (rest : List Char)
  | broken (read skipped : Break)

/-- Scans a text whose opening quote has been read. -/
def scanText (text : List Char) : Scan :=
  match scanUnits text with
  | (units, .ok rest) => .done (joinUnits units) rest
  | (units, .error fault) => .broken (if areReadable units then fault else .illFormed) fault

/-! ## Numbers -/

/-- The greatest number that digits are gathered into. -/
def greatestGathered : Nat := 18446744073709551615

/-- Gathers digits at the front into a number for as long as it fits into 64 bits; gives the number
and the digits that are left. -/
def gather : Nat → List Char → Nat × List Char
  | n, [] => (n, [])
  | n, c :: rest =>
    let next := n * 10 + (Text.digitValue? c).getD 0
    if greatestGathered < next then (n, c :: rest) else gather next rest

/-- The greatest exponent that is read as a number. -/
def greatestExponent : Nat := 2147483647

/-- The parts of a number: sign, whole digits, digits after the point if there is one, and the
exponent if there is one. -/
structure NumberParts where
  negative : Bool
  whole : List Char
  decimals : Option (List Char)
  exponent : Option Int

/-- The value of a number. Digits beyond 64 bits only move the exponent of those before them, and
where digits were left off the digits after the point go on being gathered. A number too large for
any floating-point number is flawed. -/
def NumberParts.node (p : NumberParts) : Node :=
  let (n, left) := gather 0 p.whole
  if p.decimals.isNone ∧ p.exponent.isNone ∧ left.isEmpty ∧
      (p.negative = false ∨ (0 < n ∧ n ≤ 9223372036854775808)) then
    .int (if p.negative then -Int.ofNat n else Int.ofNat n)
  else
    let decimals := p.decimals.getD []
    let (m, unused) := gather n decimals
    let shift := Int.ofNat left.length - Int.ofNat (decimals.length - unused.length)
    let value? :=
      match p.exponent with
      | none => Binary64.ofDecimalStepwise p.negative m shift
      | some e =>
        if e.natAbs ≤ greatestExponent then Binary64.ofDecimalStepwise p.negative m (shift + e)
        else if m ≠ 0 ∧ 0 < e then none
        else some (Binary64.zero p.negative)
    match value? with
    | some x => .float (.finite x)
    | none => .flawed

/-- What is read of a value: a node, and the text after it if reading can go on. -/
abbrev Piece := Node × Option (List Char)

/-- The fault of a number that lacks a digit before the text `rest`. Passed over, such a number is
ill-formed even at the end of the text. -/
def digitMissing (rest : List Char) : Piece :=
  (.broken (if rest.isEmpty then .cutShort else .illFormed) .illFormed, none)

/-- Reads the digits of an exponent after its sign. -/
def readExponentDigits (p : NumberParts) (negative : Bool) (text : List Char) : Piece :=
  let digits := text.takeWhile Text.isDigit
  let rest := text.dropWhile Text.isDigit
  if digits.isEmpty then digitMissing rest
  else
    let e := Int.ofNat (Text.ofDigits 10 digits)
    (NumberParts.node { p with exponent := some (if negative then -e else e) }, some rest)

/-- Reads the exponent of a number, if there is one. -/
def readExponent (p : NumberParts) (text : List Char) : Piece :=
  match text with
  | c :: rest =>
    if c = 'e' ∨ c = 'E' then
      match rest with
      | '+' :: rest' => readExponentDigits p false rest'
      | '-' :: rest' => readExponentDigits p true rest'
      | _ => readExponentDigits p false rest
    else (p.node, some text)
  | [] => (p.node, some [])

/-- Reads a number after its sign. -/
def readNumber (negative : Bool) (text : List Char) : Piece :=
  let whole := text.takeWhile Text.isDigit
  let rest := text.dropWhile Text.isDigit
  match whole with
  | [] => digitMissing rest
  | '0' :: _ :: _ => (.broken .illFormed .illFormed, none)
  | _ =>
    match rest with
    | '.' :: after =>
      let decimals := after.takeWhile Text.isDigit
      let rest' := after.dropWhile Text.isDigit
      if decimals.isEmpty then digitMissing rest'
      else readExponent ⟨negative, whole, some decimals, none⟩ rest'
    | _ => readExponent ⟨negative, whole, none, none⟩ rest

/-! ## Values -/

/-- Reads the letters of a word. -/
def readWord (node : Node) : (word : List Char) → List Char → Piece
  | [], text => (node, some text)
  | _ :: _, [] => (.broken .cutShort .cutShort, none)
  | w :: word, c :: text =>
    if c = w then readWord node word text else (.broken .illFormed .illFormed, none)

/-- Reads a text after its opening quote. -/
def readText (text : List Char) : Piece :=
  match scanText text with
  | .done (some content) rest => (.text (String.ofList content), some rest)
  | .done none rest => (.flawed, some rest)
  | .broken read skipped => (.broken read skipped, none)

/-- A fault that ends reading. -/
def fault (cause : Break) : Piece := (.broken cause cause, none)

mutual
/-- Reads a value. `fuel` bounds the number of steps; three for every character are enough. -/
def readValue (fuel : Nat) (text : List Char) : Piece :=
  match fuel with
  | 0 => fault .illFormed
  | fuel + 1 =>
    match skipGap text with
    | [] => fault .cutShort
    | c :: rest =>
      if c = '"' then readText rest
      else if c = '[' then
        let (items, ending, rest?) := readItems fuel true rest
        (.list items ending, rest?)
      else if c = '{' then
        let (members, ending, rest?) := readMembers fuel true rest
        (.record members ending, rest?)
      else if c = 'n' then readWord .null ['u', 'l', 'l'] rest
      else if c = 't' then readWord (.bool true) ['r', 'u', 'e'] rest
      else if c = 'f' then readWord (.bool false) ['a', 'l', 's', 'e'] rest
      else if c = '-' then readNumber true rest
      else if Text.isDigit c then readNumber false (c :: rest)
      else fault .illFormed

/-- Reads the items of a list after its bracket, or after one of its items. -/
def readItems (fuel : Nat) (first : Bool) (text : List Char) :
    List Node × Ending × Option (List Char) :=
  match fuel with
  | 0 => ([], .broken .illFormed .illFormed, none)
  | fuel + 1 =>
    match skipGap text with
    | [] => ([], .broken .cutShort .cutShort, none)
    | c :: rest =>
      if c = ']' then ([], .closed, some rest)
      else if first then readItem fuel (c :: rest)
      else if c = ',' then
        match skipGap rest with
        | [] => ([(fault .cutShort).1], .closed, none)
        | d :: rest' =>
          if d = ']' then ([(fault .illFormed).1], .closed, none) else readItem fuel (d :: rest')
      else ([], .broken .illFormed .illFormed, none)

/-- Reads an item of a list and the items after it. -/
def readItem (fuel : Nat) (text : List Char) : List Node × Ending × Option (List Char) :=
  match fuel with
  | 0 => ([], .broken .illFormed .illFormed, none)
  | fuel + 1 =>
    match readValue fuel text with
    | (node, none) => ([node], .closed, none)
    | (node, some rest) =>
      let (items, ending, rest?) := readItems fuel false rest
      (node :: items, ending, rest?)

/-- Reads the members of a record after its brace, or after one of its members. -/
def readMembers (fuel : Nat) (first : Bool) (text : List Char) :
    List (Option String × Node) × Ending × Option (List Char) :=
  match fuel with
  | 0 => ([], .broken .illFormed .illFormed, none)
  | fuel + 1 =>
    match skipGap text with
    | [] => ([], .broken .cutShort .cutShort, none)
    | c :: rest =>
      if c = '}' then ([], .closed, some rest)
      else if first then readMember fuel (c :: rest)
      else if c = ',' then
        match skipGap rest with
        | [] => ([], .broken .cutShort .cutShort, none)
        | d :: rest' => readMember fuel (d :: rest')
      else ([], .broken .illFormed .illFormed, none)

/-- Reads a member of a record and the members after it. -/
def readMember (fuel : Nat) (text : List Char) :
    List (Option String × Node) × Ending × Option (List Char) :=
  match fuel with
  | 0 => ([], .broken .illFormed .illFormed, none)
  | fuel + 1 =>
    match text with
    | '"' :: rest =>
      match scanText rest with
      | .broken read skipped => ([], .broken read skipped, none)
      | .done name rest =>
        let name := name.map String.ofList
        match skipGap rest with
        | [] => ([(name, (fault .cutShort).1)], .closed, none)
        | c :: rest =>
          if c = ':' then
            match readValue fuel rest with
            | (node, none) => ([(name, node)], .closed, none)
            | (node, some rest) =>
              let (members, ending, rest?) := readMembers fuel false rest
              ((name, node) :: members, ending, rest?)
          else ([(name, (fault .illFormed).1)], .closed, none)
    | _ => ([], .broken .illFormed .illFormed, none)
end

/-! ## Documents -/

/-- The reading of JSON values that are at hand as trees. -/
def treeReading : Reading := ⟨none, numberLayout, .counted⟩

/-- The reading of JSON texts: at most 127 levels of nesting. -/
def textReading : Reading := ⟨some 127, numberLayout, .illFormed⟩

/-- Decodes a value from a text that holds nothing else. -/
def decodeText {α : Type} (decode : Decoder α) (text : List Char) : Except DecodeError α :=
  let (node, rest?) := readValue (3 * text.length + 3) text
  match decode textReading node with
  | .error e => .error e
  | .ok value =>
    match rest? with
    | some rest => if (skipGap rest).isEmpty then .ok value else .error (.malformed .illFormed)
    | none => .error (.malformed .illFormed)

/-- Decodes a value from a tree. -/
def decodeTree {α : Type} (decode : Decoder α) (tree : Json) : Except DecodeError α :=
  decode treeReading (Node.ofJson tree)

/-- The value that a text holds. -/
def parse (text : List Char) : Except DecodeError JsonValue := decodeText Decoder.free text

end ActionBook.Json
