import ActionBook.Text.Blank
import ActionBook.Text.Utf8
import ActionBook.Timestamp.Basic

/-!
# `Timestamp.Parser`: reading a moment leniently

A moment is read from a date, a separator `T`, `t` or space, a time and an offset from universal
time. Reading is lenient: blank characters may surround the text, the numbers and the offset,
numbers may have fewer digits than usual, and years of more than four digits need a sign. The moment
is carried to universal time by its offset.

Numbers out of their range are reported where they are read, so of two faults the first in the text
wins; a date that the calendar lacks is found last.
-/

namespace ActionBook.Timestamp

/-- Why a text is not a moment. -/
inductive ParseError where
  /-- The text ends where more is needed. -/
  | cutShort
  /-- A character stands where none like it may. -/
  | invalid
  /-- A number is beyond its range, or the date is not in the calendar. -/
  | outOfRange
  /-- The text goes on after the moment. -/
  | trailing
  /-- The offset carries the moment beyond the first or last date. -/
  | impossible
deriving DecidableEq, Repr

/-- What is said about a text that is not a moment. -/
def ParseError.message : ParseError → String
  | .cutShort => "premature end of input"
  | .invalid => "input contains invalid characters"
  | .outOfRange => "input is out of range"
  | .trailing => "trailing input"
  | .impossible => "no possible date and time matching input"

/-! ## Numbers -/

/-- The greatest number that is read at all. -/
def greatestNumber : Nat := 9223372036854775807

/-- The value of the digits at the front, at most `width` of them, and the text after them. -/
def takeDigits : (width : Nat) → Nat → List Char → Except ParseError (Nat × List Char)
  | 0, n, text => .ok (n, text)
  | _ + 1, n, [] => .ok (n, [])
  | width + 1, n, c :: rest =>
    match Text.digitValue? c with
    | some d =>
      if d < 10 then
        if greatestNumber < n * 10 + d then .error .outOfRange
        else takeDigits width (n * 10 + d) rest
      else .ok (n, c :: rest)
    | none => .ok (n, c :: rest)

/-- A number of at least one and at most `width` digits. -/
def number (width : Nat) (text : List Char) : Except ParseError (Nat × List Char) :=
  match text with
  | [] => .error .cutShort
  | c :: _ => if Text.isDigit c then takeDigits width 0 text else .error .invalid

/-- A number within bounds, after blank characters. -/
def bounded (width least greatest : Nat) (text : List Char) :
    Except ParseError (Nat × List Char) := do
  let (n, rest) ← number width (Text.trimStart text)
  if least ≤ n ∧ n ≤ greatest then .ok (n, rest) else .error .outOfRange

/-- The greatest size of a year that is read. -/
def greatestYear : Nat := 2147483647

/-- A year after blank characters: any number of digits after a sign, else at most four. -/
def year (text : List Char) : Except ParseError (Int × List Char) := do
  match Text.trimStart text with
  | '-' :: rest =>
    let (n, rest') ← number rest.length rest
    if n ≤ greatestYear + 1 then .ok (-Int.ofNat n, rest') else .error .outOfRange
  | '+' :: rest =>
    let (n, rest') ← number rest.length rest
    if n ≤ greatestYear then .ok (Int.ofNat n, rest') else .error .outOfRange
  | text' =>
    let (n, rest') ← number 4 text'
    .ok (Int.ofNat n, rest')

/-- The character `c` after blank characters. -/
def mark (c : Char) (text : List Char) : Except ParseError (List Char) :=
  match Text.trimStart text with
  | [] => .error .cutShort
  | d :: rest => if d = c then .ok rest else .error .invalid

/-! ## Time and offset -/

/-- The fraction of a second in nanoseconds, if a point follows; digits beyond the ninth are left
out. -/
def fraction (text : List Char) : Except ParseError (Nat × List Char) :=
  match text with
  | '.' :: rest => do
    let (n, rest') ← number 9 rest
    .ok (n * Nat.pow 10 (9 - (rest.length - rest'.length)), rest'.dropWhile Text.isDigit)
  | _ => .ok (0, text)

/-- Two digits of an offset. A single octet is too little, anything else but digits invalid. -/
def twoDigits (text : List Char) : Except ParseError (Nat × Nat × List Char) :=
  match text with
  | [] => .error .cutShort
  | [c] => if c.utf8Size = 1 then .error .cutShort else .error .invalid
  | c :: d :: rest =>
    match Text.digitValue? c, Text.digitValue? d with
    | some a, some b => if a < 10 ∧ b < 10 then .ok (a, b, rest) else .error .invalid
    | _, _ => .error .invalid

/-- The hours and minutes of an offset in seconds, after its sign. -/
def offsetSize (text : List Char) : Except ParseError (Nat × List Char) := do
  let (h₁, h₂, rest) ← twoDigits text
  let rest := rest.dropWhile fun c => c = ':' || Text.isBlank c
  let (m₁, m₂, rest') ← twoDigits rest
  if 5 < m₁ then .error .outOfRange
  else .ok ((h₁ * 10 + h₂) * 3600 + (m₁ * 10 + m₂) * 60, rest')

/-- The offset from universal time in seconds: the letter Z, the letters UTC, or a sign with hours
and minutes, where a minus may also be U+2212. -/
def offset (text : List Char) : Except ParseError (Int × List Char) :=
  match text with
  | [] => .error .cutShort
  | c :: rest =>
    if isUniversal text then .ok (0, text.drop 3)
    else if c = 'Z' ∨ c = 'z' then .ok (0, rest)
    else if c = '+' then do
      let (n, rest') ← offsetSize rest
      .ok (Int.ofNat n, rest')
    else if c = '-' ∨ c = '\u2212' then do
      let (n, rest') ← offsetSize rest
      .ok (-Int.ofNat n, rest')
    else .error .invalid
where
  /-- Whether the text starts with the letters UTC in either case. -/
  isUniversal : List Char → Bool
    | u :: t :: c :: _ => u.toUpper = 'U' && t.toUpper = 'T' && c.toUpper = 'C'
    | _ => false

/-! ## Moments -/

/-- The numbers of a moment as they stand in a text, each within its own range. -/
structure Fields where
  year : Int
  month : Nat
  day : Nat
  hour : Nat
  minute : Nat
  second : Nat
  nano : Nat
  offset : Int

/-- The numbers of a text that holds a moment and nothing else. -/
def fields (text : List Char) : Except ParseError Fields := do
  let (year, text) ← year text
  let text ← mark '-' text
  let (month, text) ← bounded 2 1 12 text
  let text ← mark '-' text
  let (day, text) ← bounded 2 1 31 text
  let text ← match text with
    | [] => .error .cutShort
    | c :: rest => if c = 'T' ∨ c = 't' ∨ c = ' ' then .ok rest else .error .invalid
  let (hour, text) ← bounded 2 0 23 text
  let text ← mark ':' text
  let (minute, text) ← bounded 2 0 59 text
  let text ← mark ':' text
  let (second, text) ← bounded 2 0 60 text
  let (nano, text) ← fraction text
  let (offset, text) ← offset (Text.trimStart text)
  if (Text.trimStart text).isEmpty then
    .ok { year, month, day, hour, minute, second, nano, offset }
  else .error .trailing

/-- The moment of a date and a time of day, given in seconds, that lie `offset` seconds ahead of
universal time: at most one day is gained or lost. -/
def carried (date : Date) (seconds nano : Nat) (offset : Int) : Except ParseError Timestamp :=
  let universal := Int.ofNat seconds - offset
  let date? :=
    if universal < 0 then date.previous?
    else if 86400 ≤ universal then date.next?
    else some date
  match date? with
  | none => .error .impossible
  | some date =>
    let s := (universal % 86400).toNat
    if h : IsTime (s / 3600) (s / 60 % 60) (s % 60) nano then
      .ok ⟨date, s / 3600, s / 60 % 60, s % 60, nano, h⟩
    else .error .outOfRange

/-- The moment that numbers name: second 60 is a leap second after second 59. -/
def ofFields (f : Fields) : Except ParseError Timestamp :=
  match Date.ofYmd? f.year f.month f.day with
  | none => .error .outOfRange
  | some date =>
    let second := min f.second 59
    let nano := f.nano + (if f.second = 60 then 1000000000 else 0)
    if f.offset.natAbs < 86400 then
      carried date (f.hour * 3600 + f.minute * 60 + second) nano f.offset
    else .error .outOfRange

/-- The moment that a text holds. -/
def parse (text : List Char) : Except ParseError Timestamp := fields text >>= ofFields

end ActionBook.Timestamp
