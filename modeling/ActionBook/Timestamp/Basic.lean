import ActionBook.Text.Hex

/-!
# `Timestamp`: moments in coordinated universal time

A moment is a calendar date, a time of day and a fraction of a second in nanoseconds. A leap second
is the second after `:59`, held as a fraction of one second or more. Dates run through the proleptic
Gregorian calendar from year -262143 to year 262142.

`Timestamp.write` gives the text of a moment: `2024-01-02T03:04:05Z`, with as few groups of three
fraction digits as lose nothing, and a sign before years that need other than four digits.
-/

namespace ActionBook

/-- Whether a year has a 29th of February. -/
def isLeapYear (year : Int) : Bool :=
  year % 4 == 0 && (year % 100 != 0 || year % 400 == 0)

/-- The number of days in a month of a year. -/
def daysInMonth (year : Int) (month : Nat) : Nat :=
  if month = 2 then if isLeapYear year then 29 else 28
  else if month = 4 ∨ month = 6 ∨ month = 9 ∨ month = 11 then 30
  else 31

/-- The first year that has dates. -/
def firstYear : Int := -262143

/-- The last year that has dates. -/
def lastYear : Int := 262142

/-- Whether a year, a month and a day name a date. -/
def IsDate (year : Int) (month day : Nat) : Prop :=
  firstYear ≤ year ∧ year ≤ lastYear ∧ 1 ≤ month ∧ month ≤ 12 ∧ 1 ≤ day ∧
    day ≤ daysInMonth year month

instance (year : Int) (month day : Nat) : Decidable (IsDate year month day) := by
  unfold IsDate; infer_instance

/-- A date of the calendar. -/
structure Date where
  year : Int
  month : Nat
  day : Nat
  isDate : IsDate year month day
deriving DecidableEq, Repr

namespace Date

/-- The date with the given year, month and day, if they name one. -/
def ofYmd? (year : Int) (month day : Nat) : Option Date :=
  if h : IsDate year month day then some ⟨year, month, day, h⟩ else none

/-- The next day, if there is one. -/
def next? (d : Date) : Option Date :=
  if d.day < daysInMonth d.year d.month then ofYmd? d.year d.month (d.day + 1)
  else if d.month < 12 then ofYmd? d.year (d.month + 1) 1
  else ofYmd? (d.year + 1) 1 1

/-- The day before, if there is one. -/
def previous? (d : Date) : Option Date :=
  if 1 < d.day then ofYmd? d.year d.month (d.day - 1)
  else if 1 < d.month then ofYmd? d.year (d.month - 1) (daysInMonth d.year (d.month - 1))
  else ofYmd? (d.year - 1) 12 31

end Date

/-- Whether hour, minute, second and nanoseconds name a time of day. A fraction of one second or
more is a leap second and needs a second of 59. -/
def IsTime (hour minute second nano : Nat) : Prop :=
  hour < 24 ∧ minute < 60 ∧ second < 60 ∧ nano < 2000000000 ∧ (1000000000 ≤ nano → second = 59)

instance (hour minute second nano : Nat) : Decidable (IsTime hour minute second nano) := by
  unfold IsTime; infer_instance

/-- A moment in coordinated universal time. -/
structure Timestamp where
  date : Date
  hour : Nat
  minute : Nat
  second : Nat
  nano : Nat
  isTime : IsTime hour minute second nano
deriving DecidableEq, Repr

namespace Timestamp

/-- The components of a moment from the greatest to the least. -/
def components (t : Timestamp) : List Int :=
  [t.date.year, t.date.month, t.date.day, t.hour, t.minute, t.second, t.nano]

/-- Whether components come no later than others: the first that differ decide. -/
def NotAfter : List Int → List Int → Prop
  | x :: xs, y :: ys => x < y ∨ (x = y ∧ NotAfter xs ys)
  | _, _ => True

instance : LE Timestamp := ⟨fun t u => NotAfter t.components u.components⟩

/-! ## Text -/

/-- Four digits for the years from 0 to 9999, a sign and at least four digits for all others. -/
def writeYear (year : Int) : List Char :=
  if 0 ≤ year ∧ year ≤ 9999 then Text.zeroPadded 4 (Text.decimal year.toNat)
  else (if year < 0 then '-' else '+') :: Text.zeroPadded 4 (Text.decimal year.natAbs)

/-- Two digits. -/
def writeTwo (n : Nat) : List Char := Text.zeroPadded 2 (Text.decimal n)

/-- The fraction of a second: nothing if it is zero, else three, six or nine digits, the fewest that
lose nothing. -/
def writeFraction (nano : Nat) : List Char :=
  if nano = 0 then []
  else if nano % 1000000 = 0 then '.' :: Text.zeroPadded 3 (Text.decimal (nano / 1000000))
  else if nano % 1000 = 0 then '.' :: Text.zeroPadded 6 (Text.decimal (nano / 1000))
  else '.' :: Text.zeroPadded 9 (Text.decimal nano)

/-- The text of a moment. A leap second is written as second 60. -/
def write (t : Timestamp) : List Char :=
  let leap := t.nano / 1000000000
  writeYear t.date.year ++ '-' :: writeTwo t.date.month ++ '-' :: writeTwo t.date.day ++
    'T' :: writeTwo t.hour ++ ':' :: writeTwo t.minute ++ ':' :: writeTwo (t.second + leap) ++
    writeFraction (t.nano % 1000000000) ++ ['Z']

/-- The text of a moment. -/
def text (t : Timestamp) : String := String.ofList t.write

/-! ## Moments by count -/

/-- The date a number of days after the first of March of year 0, by eras of 400 years: the years of
an era that starts in March end with their leap day. -/
def Date.ofDayCount? (days : Nat) : Option Date :=
  let era := days / 146097
  let dayOfEra := days % 146097
  let yearOfEra := (dayOfEra - dayOfEra / 1460 + dayOfEra / 36524 - dayOfEra / 146096) / 365
  let dayOfYear := dayOfEra - (365 * yearOfEra + yearOfEra / 4 - yearOfEra / 100)
  let monthFromMarch := (5 * dayOfYear + 2) / 153
  let day := dayOfYear - (153 * monthFromMarch + 2) / 5 + 1
  let month := if monthFromMarch < 10 then monthFromMarch + 3 else monthFromMarch - 9
  let year := yearOfEra + era * 400 + (if month ≤ 2 then 1 else 0)
  Date.ofYmd? year month day

/-- Days from the first of March of year 0 to the first of January of 1970. -/
def epochDays : Nat := 719468

/-- The moment some seconds and nanoseconds after the start of 1970, if dates reach so far. -/
def ofEpoch? (seconds nano : Nat) : Option Timestamp :=
  match Date.ofDayCount? (seconds / 86400 + epochDays) with
  | none => none
  | some date =>
    let s := seconds % 86400
    if h : IsTime (s / 3600) (s / 60 % 60) (s % 60) nano then
      some ⟨date, s / 3600, s / 60 % 60, s % 60, nano, h⟩
    else none

end Timestamp

end ActionBook
