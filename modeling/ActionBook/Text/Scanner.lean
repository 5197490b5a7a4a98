/-!
# `Text.Scanner`: reading from the front of a text

A scanner reads something from the front of a text and leaves the text after it, or fails. Scanners
are put together with `do` blocks; `x <|> y` reads `y` from the same place if `x` fails.
-/

namespace ActionBook

/-- Reads a value from the front of a text. -/
abbrev Scanner (α : Type) := StateT (List Char) Option α

namespace Scanner

/-- The next character, which has to satisfy `p`. -/
def satisfy (p : Char → Bool) : Scanner Char
  | [] => none
  | c :: rest => if p c then some (c, rest) else none

/-- The given character. -/
def char (c : Char) : Scanner Unit := do let _ ← satisfy (· = c)

/-- The given characters. -/
def word : List Char → Scanner Unit
  | [] => pure ()
  | c :: cs => do char c; word cs

/-- As many characters that satisfy `p` as there are. -/
def takeWhile (p : Char → Bool) : Scanner (List Char) := fun text =>
  some (text.takeWhile p, text.dropWhile p)

/-- What `read` reads, as it stands in the text. -/
def source (read : Scanner Unit) : Scanner (List Char) := fun text =>
  (read text).map fun ((), rest) => (text.take (text.length - rest.length), rest)

/-- Reads as often as possible, but no more than `times` times. -/
def upTo {α : Type} (read : Scanner α) : (times : Nat) → Scanner (List α)
  | 0 => pure []
  | times + 1 => (do return (← read) :: (← upTo read times)) <|> pure []

/-- Reads as often as possible; every reading takes a character at least. -/
def many {α : Type} (read : Scanner α) : Scanner (List α) := fun text =>
  upTo read text.length text

/-- Values with a character between neighbours, one at least. -/
def separated {α : Type} (separator : Char) (read : Scanner α) : Scanner (List α) := do
  let first ← read
  let others ← many do char separator; read
  return first :: others

end Scanner

end ActionBook
