import ActionBook.Url.Basic

/-!
# `Http.Credentials`: user names and passwords in requests

The user and the password of an address do not travel in it, but in a header of their own, in base
64.
-/

namespace ActionBook.Http

/-! ## Base 64 -/

/-- The digit of a value below 64. -/
def base64Digit (n : Nat) : Char :=
  if n < 26 then Char.ofNat (0x41 + n)
  else if n < 52 then Char.ofNat (0x61 + (n - 26))
  else if n < 62 then Char.ofNat (0x30 + (n - 52))
  else if n = 62 then '+'
  else '/'

/-- Octets in base 64, three of them as four digits; equals signs fill up the last four. -/
def base64 : Text.Octets → List Char
  | [] => []
  | [a] =>
    let n := a.toNat * 16
    [base64Digit (n / 64), base64Digit (n % 64), '=', '=']
  | [a, b] =>
    let n := (a.toNat * 256 + b.toNat) * 4
    [base64Digit (n / 4096), base64Digit (n / 64 % 64), base64Digit (n % 64), '=']
  | a :: b :: c :: rest =>
    let n := (a.toNat * 256 + b.toNat) * 256 + c.toNat
    base64Digit (n / 262144) :: base64Digit (n / 4096 % 64) :: base64Digit (n / 64 % 64) ::
      base64Digit (n % 64) :: base64 rest

/-! ## Users of addresses -/

/-- A user and a password. -/
structure Credentials where
  user : List Char
  password : Option (List Char)
deriving DecidableEq, Repr

namespace Credentials

/-- The text that an escaped part of an address stands for, if it is one. -/
def unescaped? (part : List Char) : Option (List Char) :=
  Text.decode? (Url.unescaped (Text.encode part))

/-- User and password of an address. A password that is no text counts as none; there are no
credentials if the user is no text, or if there is neither. -/
def ofUrl? (u : Url) : Option Credentials :=
  match unescaped? u.username with
  | none => none
  | some user =>
    let password := u.password.bind unescaped?
    if user.isEmpty && password.isNone then none else some ⟨user, password⟩

/-- The value of the header that carries the credentials. -/
def header (c : Credentials) : String :=
  "Basic " ++ String.ofList (base64 (Text.encode (c.user ++ ':' :: c.password.getD [])))

end Credentials

end ActionBook.Http
