import ActionBook.Text.Hex
import ActionBook.Text.Visible

/-!
# `Text.Quoted`: text in quotation marks for messages

A quoted text stands between double quotes. Quotes, backslashes and the controls with a short name
are written with a backslash, every other hidden character by its code point in braces.
-/

namespace ActionBook.Text

/-- How one character is written inside quotation marks. -/
def quotedChar (c : Char) : List Char :=
  if c = '\x00' then ['\\', '0']
  else if c = '\t' then ['\\', 't']
  else if c = '\r' then ['\\', 'r']
  else if c = '\n' then ['\\', 'n']
  else if c = '\\' then ['\\', '\\']
  else if c = '"' then ['\\', '"']
  else if isVisible c then [c]
  else ['\\', 'u', '\x7b'] ++ hex c.toNat ++ ['\x7d']

/-- The text in double quotes, with everything that could be misread escaped. -/
def quoted (text : String) : String :=
  String.ofList ('"' :: text.toList.flatMap quotedChar ++ ['"'])

/-- Texts as the members of a set: quoted, between braces, with commas. -/
def quotedSet (texts : List String) : String :=
  "\x7b" ++ String.intercalate ", " (texts.map quoted) ++ "\x7d"

end ActionBook.Text
