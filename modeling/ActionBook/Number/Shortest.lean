import ActionBook.Number.Binary64
import ActionBook.Text.Hex

/-!
# `Number.Shortest`: the fewest digits that read back

All numbers between two neighbouring halfway points round to the same `Binary64`. The shortest
decimal of a number has the fewest digits of all decimals in that interval, and of those it is the
nearest to the number. A `DecimalLayout` says how such a decimal is written out: up to which sizes
positionally, and how an exponent looks.
-/

namespace ActionBook

/-- The decimal `digits · 10^exponent`. -/
structure Decimal where
  digits : Nat
  exponent : Int
deriving DecidableEq, Repr

namespace Decimal

/-- `a · 2^e · 10^k` as a quotient of natural numbers. -/
def quotient (a : Nat) (e k : Int) : Nat × Nat :=
  (a * Nat.pow 2 e.toNat * Nat.pow 10 k.toNat, Nat.pow 2 (-e).toNat * Nat.pow 10 (-k).toNat)

/-- The halfway points below and above `m · 2^e`, in quarters of `2^e`. Below a power of two the
neighbours are twice as close, except at the least exponent. -/
def halfways (m : Nat) (e : Int) : Nat × Nat :=
  if m = Nat.pow 2 52 ∧ Binary64.leastExponent < e then (4 * m - 1, 4 * m + 2)
  else (4 * m - 2, 4 * m + 2)

/-- Whether `count · 10^k` rounds to `m · 2^e`. The halfway points do exactly if `m` is even. -/
def roundsTo (count : Nat) (k : Int) (m : Nat) (e : Int) : Bool :=
  let (low, high) := halfways m e
  let (ln, ld) := quotient low e (-k)
  let (hn, hd) := quotient high e (-k)
  let c := 4 * count
  if m % 2 = 0 then ln ≤ c * ld && c * hd ≤ hn else ln < c * ld && c * hd < hn

/-- The place of the decimal point of the positive number `m · 2^e`: the next power of ten above. -/
def pointPlace (m : Nat) (e : Int) : Int :=
  let (n, d) := quotient m e 0
  if d ≤ n then Int.ofNat (Text.decimal (n / d)).length
  else
    let zeros := (Text.decimal (d / n)).length - 1
    if d ≤ n * Nat.pow 10 zeros then 1 - Int.ofNat zeros else - Int.ofNat zeros

/-- The decimal with `count` digits that rounds to `m · 2^e` and is the nearest to it, if there is
one: one of the two neighbours of the number on the grid of that many digits. -/
def withDigits? (m : Nat) (e : Int) (count : Nat) : Option Decimal :=
  let k := pointPlace m e - Int.ofNat count
  let (n, d) := quotient m e (-k)
  let low := n / d
  let nearest := Binary64.roundDiv n d
  if roundsTo nearest k m e then some ⟨nearest, k⟩
  else if roundsTo low k m e then some ⟨low, k⟩
  else if roundsTo (low + 1) k m e then some ⟨low + 1, k⟩
  else none

/-- The decimal with its trailing zeros moved into the exponent; `places` bounds their number. -/
def stripped (d : Decimal) : (places : Nat) → Decimal
  | 0 => d
  | places + 1 =>
    if d.digits ≠ 0 ∧ d.digits % 10 = 0 then stripped ⟨d.digits / 10, d.exponent + 1⟩ places else d

/-- The shortest decimal that rounds to the positive number `m · 2^e`; seventeen digits always
suffice. -/
def shortest (m : Nat) (e : Int) : Decimal :=
  ((((List.range 17).map (· + 1)).findSome? (withDigits? m e)).getD ⟨0, 0⟩).stripped 20

end Decimal

/-- How a decimal is written: positionally while its point stands in the given range of places, else
with one digit before the point and a signed exponent. `none` leaves that end of the range open. -/
structure DecimalLayout where
  leastPlace : Option Int
  greatestPlace : Option Int

namespace DecimalLayout

/-- Positional digits: the point after `place` of them, padded with zeros on either side, and at
least one digit on both sides of the point. -/
def positional (digits : List Char) (place : Int) : List Char :=
  if place ≤ 0 then
    ['0', '.'] ++ List.replicate (-place).toNat '0' ++ digits
  else if digits.length ≤ place.toNat then
    digits ++ List.replicate (place.toNat - digits.length) '0' ++ ['.', '0']
  else
    digits.take place.toNat ++ '.' :: digits.drop place.toNat

/-- Digits with an exponent: one digit, the others after a point if there are any, and the exponent
with its sign. -/
def scientific (digits : List Char) (place : Int) : List Char :=
  let exponent := place - 1
  let sign := if exponent < 0 then '-' else '+'
  let power := 'e' :: sign :: Text.decimal exponent.natAbs
  match digits with
  | [] => power
  | [d] => d :: power
  | d :: rest => d :: '.' :: rest ++ power

/-- Whether the place of the point allows positional digits. -/
def isPositional (layout : DecimalLayout) (place : Int) : Bool :=
  (match layout.leastPlace with | some p => p ≤ place | none => true) &&
  (match layout.greatestPlace with | some p => place ≤ p | none => true)

/-- The text of a number. -/
def write (layout : DecimalLayout) (x : Binary64) : String :=
  let sign := if x.negative then ['-'] else []
  if x.isZero then String.ofList (sign ++ ['0', '.', '0'])
  else
    let d := Decimal.shortest x.significand x.exponent
    let digits := Text.decimal d.digits
    let place := Int.ofNat digits.length + d.exponent
    String.ofList (sign ++
      if layout.isPositional place then positional digits place else scientific digits place)

end DecimalLayout

/-- A floating-point number as a document can hold it. -/
inductive FloatValue where
  | finite (x : Binary64)
  | infinite (negative : Bool)
  | notANumber
deriving DecidableEq, Repr

/-- The text of any floating-point number in a layout for the finite ones. -/
def FloatValue.write (layout : DecimalLayout) : FloatValue → String
  | .finite x => layout.write x
  | .infinite negative => if negative then "-inf" else "inf"
  | .notANumber => "NaN"

end ActionBook
