import ActionBook.Text.Hex
import ActionBook.Text.Utf8

/-!
# `Url.Percent`: escaped octets

A character that may not stand for itself is written as its UTF-8 octets, each as a percent sign and
two digits. Which characters do stand for themselves depends on the part of the address; none of
them is beyond ASCII.
-/

namespace ActionBook.Url

/-- An octet as a percent sign and two digits. -/
def escapedOctet (b : UInt8) : List Char := '%' :: Text.octetDigits b

/-- A character as itself, or as its octets if it may not stand for itself. -/
def escapedChar (keeps : Char → Bool) (c : Char) : List Char :=
  if keeps c then [c] else (String.utf8EncodeChar c).flatMap escapedOctet

/-- A text with the characters escaped that may not stand for themselves. -/
def escaped (keeps : Char → Bool) (text : List Char) : List Char :=
  text.flatMap (escapedChar keeps)

/-- The octets of a text with escapes. A percent sign without two digits stands for itself. -/
def unescaped : Text.Octets → Text.Octets
  | 0x25 :: a :: b :: rest =>
    match Text.digitValue? (Char.ofNat a.toNat), Text.digitValue? (Char.ofNat b.toNat) with
    | some high, some low => UInt8.ofNat (high * 16 + low) :: unescaped rest
    | _, _ => 0x25 :: unescaped (a :: b :: rest)
  | a :: rest => a :: unescaped rest
  | [] => []

/-! ## What stands for itself -/

/-- ASCII without controls: what opaque parts keep. -/
def isPlain (c : Char) : Bool := 0x20 ≤ c.toNat && c.toNat ≤ 0x7E

/-- What a fragment keeps. -/
def keptInFragment (c : Char) : Bool :=
  isPlain c && !(c = ' ' || c = '"' || c = '<' || c = '>' || c.toNat = 0x60)

/-- What a path keeps. -/
def keptInPath (c : Char) : Bool :=
  keptInFragment c && !(c = '#' || c = '?' || c = '{' || c = '}')

/-- What a user name or a password keeps. -/
def keptInUser (c : Char) : Bool :=
  keptInPath c && !(c = '/' || c = ':' || c = ';' || c = '=' || c = '@' || c = '[' || c = '\\' ||
    c = ']' || c = '^' || c = '|')

/-- What a query keeps; an apostrophe only under schemes without a special meaning. -/
def keptInQuery (isSpecial : Bool) (c : Char) : Bool :=
  isPlain c && !(c = ' ' || c = '"' || c = '#' || c = '<' || c = '>' || (isSpecial && c = '\''))

end ActionBook.Url
