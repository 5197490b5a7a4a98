/-!
# `Number.Binary64`: finite binary floating-point numbers

A finite number of the 64-bit binary format is a sign, a significand below `2^53` and a power of
two. Rounding takes an exact quotient of natural numbers to the nearest such number, a tie going to
the even significand, and fails where the nearest would be beyond the largest one. All arithmetic
here is exact arithmetic followed by one rounding.
-/

namespace ActionBook

/-- The number `± significand · 2^exponent`. The numbers made in this module have a significand of
exactly 53 bits, or fewer at the least exponent, so that equal numbers of one sign are equal. -/
structure Binary64 where
  negative : Bool
  significand : Nat
  exponent : Int
deriving DecidableEq, Repr, Inhabited

namespace Binary64

/-- The least exponent, that of the numbers nearest to zero. -/
def leastExponent : Int := -1074

/-- The greatest exponent, that of the largest numbers. -/
def greatestExponent : Int := 971

/-- Zero of either sign. -/
def zero (negative : Bool) : Binary64 := ⟨negative, 0, leastExponent⟩

/-- Whether the number is a zero. -/
def isZero (x : Binary64) : Bool := x.significand == 0

/-- The number with the given sign and the same size. -/
def withSign (x : Binary64) (negative : Bool) : Binary64 := { x with negative }

/-! ## Rounding -/

/-- The natural number nearest to `num / den`, the even one of two equally near. -/
def roundDiv (num den : Nat) : Nat :=
  let q := num / den
  let r := num % den
  if 2 * r < den then q
  else if den < 2 * r then q + 1
  else if q % 2 = 0 then q else q + 1

/-- `num / den` in units of `2^e`, as a quotient of natural numbers. -/
def scaled (num den : Nat) (e : Int) : Nat × Nat :=
  match e with
  | .ofNat k => (num, den * Nat.pow 2 k)
  | .negSucc k => (num * Nat.pow 2 (k + 1), den)

/-- The exponent at which `num / den` has a significand of 53 bits, or the least one. -/
def fittingExponent (num den : Nat) : Int :=
  let e : Int := Int.ofNat num.log2 - Int.ofNat den.log2 - 53
  let (n, d) := scaled num den e
  max leastExponent (if n / d < Nat.pow 2 53 then e else e + 1)

/-- The number nearest to `num / den`, if it is within range; `den` is positive. -/
def ofRatio (negative : Bool) (num den : Nat) : Option Binary64 :=
  if num = 0 then some (zero negative)
  else
    let e := fittingExponent num den
    let (n, d) := scaled num den e
    let m := roundDiv n d
    let (m, e) := if m = Nat.pow 2 53 then (Nat.pow 2 52, e + 1) else (m, e)
    if greatestExponent < e then none else some ⟨negative, m, e⟩

/-- The size of a number as a quotient of natural numbers. -/
def ratio (x : Binary64) : Nat × Nat :=
  match x.exponent with
  | .ofNat k => (x.significand * Nat.pow 2 k, 1)
  | .negSucc k => (x.significand, Nat.pow 2 (k + 1))

/-- The product, rounded once. -/
def mul? (x y : Binary64) : Option Binary64 :=
  let (a, b) := x.ratio
  let (c, d) := y.ratio
  ofRatio (x.negative != y.negative) (a * c) (b * d)

/-- The quotient by a number other than zero, rounded once. -/
def div? (x y : Binary64) : Option Binary64 :=
  let (a, b) := x.ratio
  let (c, d) := y.ratio
  ofRatio (x.negative != y.negative) (a * d) (b * c)

/-! ## Decimal readings -/

/-- The number nearest to `digits · 10^exponent`, if it is within range. Exponents so large or so
small that the outcome is certain are not multiplied out. -/
def ofDecimal (negative : Bool) (digits : Nat) (exponent : Int) : Option Binary64 :=
  if digits = 0 then some (zero negative)
  else
    let magnitude := exponent + (Int.ofNat digits.log2) / 3
    if 400 < exponent then none
    else if magnitude < -400 then some (zero negative)
    else match exponent with
      | .ofNat k => ofRatio negative (digits * Nat.pow 10 k) 1
      | .negSucc k => ofRatio negative digits (Nat.pow 10 (k + 1))

/-- The greatest power of ten that is scaled by in one step. -/
def greatestScale : Nat := 308

/-- The power of ten, rounded to the nearest number. -/
def powerOfTen (k : Nat) : Binary64 := (ofRatio false (Nat.pow 10 k) 1).getD (zero false)

/-- Divides by the greatest power of ten again and again while the exponent is below its negative,
then scales by what is left. Each step rounds, so the outcome can differ from the nearest number to
the exact product in its last bits. `steps` bounds the divisions; four bring any start to zero. -/
def scaleBy (x : Binary64) (exponent : Int) : (steps : Nat) → Option Binary64
  | 0 => some (zero x.negative)
  | steps + 1 =>
    if exponent.natAbs ≤ greatestScale then
      if 0 ≤ exponent then x.mul? (powerOfTen exponent.natAbs)
      else x.div? (powerOfTen exponent.natAbs)
    else if x.isZero then some x
    else if 0 ≤ exponent then none
    else match x.div? (powerOfTen greatestScale) with
      | none => none
      | some y => scaleBy y (exponent + greatestScale) steps

/-- The number read from the leading digits `digits` of a decimal and the power of ten of the last
of them, in steps that each round: the digits to a number, then the scaling. -/
def ofDecimalStepwise (negative : Bool) (digits : Nat) (exponent : Int) : Option Binary64 :=
  match ofRatio false digits 1 with
  | none => none
  | some x => (scaleBy x exponent 8).map (·.withSign negative)

end Binary64

end ActionBook
