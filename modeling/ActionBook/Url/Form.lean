import ActionBook.Text.Blank
import ActionBook.Url.Percent

/-!
# `Url.Form`: pairs in a query

A query may list pairs of names and values: with equals signs between name and value, ampersands
between pairs, plus signs for spaces, and escapes for everything but letters, digits and four signs.
-/

namespace ActionBook.Url

/-- What names and values keep. -/
def keptInForm (c : Char) : Bool :=
  c.isAlphanum || c = '*' || c = '-' || c = '.' || c = '_'

/-- How one character of a name or a value is written. -/
def formChar (c : Char) : List Char := if c = ' ' then ['+'] else escapedChar keptInForm c

/-- A name or a value. -/
def formText (s : String) : List Char := s.toList.flatMap formChar

/-- A pair. -/
def formPair (pair : String × String) : List Char := formText pair.1 ++ '=' :: formText pair.2

/-- The query with one more pair. No ampersand comes before the first one. -/
def appendPair (query : Option (List Char)) (pair : String × String) : Option (List Char) :=
  match query with
  | none | some [] => some (formPair pair)
  | some query => some (query ++ '&' :: formPair pair)

/-- The query with more pairs. -/
def appendPairs (query : Option (List Char)) (pairs : List (String × String)) :
    Option (List Char) :=
  pairs.foldl appendPair query

/-! ## Reading -/

/-- The text that a written name or value stands for. Octets that are no text are replaced. -/
def formValue (written : List Char) : String :=
  let spaced := written.map fun c => if c = '+' then ' ' else c
  String.ofList (Text.decodeLossy (unescaped (Text.encode spaced)))

/-- The pair that a piece of a query stands for; without an equals sign all of it is the name. -/
def pairOf (piece : List Char) : String × String :=
  match Text.cutAt '=' piece with
  | some (name, value) => (formValue name, formValue value)
  | none => (formValue piece, "")

/-- The pairs in a query. -/
def pairs (query : Option (List Char)) : List (String × String) :=
  ((Text.splitOn '&' (query.getD [])).filter fun piece => !piece.isEmpty).map pairOf

end ActionBook.Url
