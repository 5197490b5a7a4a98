/-!
# `Text.Hex`: digits of numbers

Digits in any base up to sixteen, in lower or upper case, with the number of digits either free or
fixed, and the reading of digits back.
-/

namespace ActionBook.Text

/-- The digit of value `d` below sixteen, in lower case. -/
def digit (d : Nat) : Char := if d < 10 then Char.ofNat (0x30 + d) else Char.ofNat (0x57 + d)

/-- The digit of value `d` below sixteen, in upper case. -/
def upperDigit (d : Nat) : Char := if d < 10 then Char.ofNat (0x30 + d) else Char.ofNat (0x37 + d)

/-- The value of a hexadecimal digit in either case. -/
def digitValue? (c : Char) : Option Nat :=
  let n := c.toNat
  if 0x30 ≤ n && n ≤ 0x39 then some (n - 0x30)
  else if 0x61 ≤ n && n ≤ 0x66 then some (n - 0x57)
  else if 0x41 ≤ n && n ≤ 0x46 then some (n - 0x37)
  else none

/-- Whether a character is a digit in base `base`. -/
def isDigitIn (base : Nat) (c : Char) : Bool :=
  match digitValue? c with
  | some d => d < base
  | none => false

/-- Whether a character is one of the ten decimal digits. -/
def isDigit (c : Char) : Bool := isDigitIn 10 c

/-- The digits of `n` in base `base`, the most significant first and none for zero; `base` is at
least two. -/
def digitsAux (base : Nat) (h : 1 < base) (n : Nat) : List Char :=
  if hn : n = 0 then []
  else
    have : n / base < n := Nat.div_lt_self (Nat.pos_of_ne_zero hn) h
    digitsAux base h (n / base) ++ [digit (n % base)]
termination_by n

/-- The decimal digits of a number, without leading zeros. -/
def decimal (n : Nat) : List Char := if n = 0 then ['0'] else digitsAux 10 (by decide) n

/-- The hexadecimal digits of a number in lower case, without leading zeros. -/
def hex (n : Nat) : List Char := if n = 0 then ['0'] else digitsAux 16 (by decide) n

/-- The text padded on the left with zeros to at least `width` characters. -/
def zeroPadded (width : Nat) (text : List Char) : List Char :=
  List.replicate (width - text.length) '0' ++ text

/-- The decimal digits of a whole number, after a minus sign if it is negative. -/
def integer (n : Int) : List Char :=
  match n with
  | .ofNat n => decimal n
  | .negSucc n => '-' :: decimal (n + 1)

/-- The number that digits in base `base` stand for, characters that are no digits counting zero. -/
def ofDigits (base : Nat) (digits : List Char) : Nat :=
  digits.foldl (fun n c => n * base + (digitValue? c).getD 0) 0

/-- Two hexadecimal digits of an octet in upper case. -/
def octetDigits (b : UInt8) : List Char := [upperDigit (b.toNat / 16), upperDigit (b.toNat % 16)]

end ActionBook.Text
