import ActionBook.Action.Basic
import ActionBook.Text.Hex

/-!
# `Identifier`: ids made from numbers

An id is a universally unique identifier of the random kind: 32 hexadecimal digits in five groups,
one of them the kind and one the layout. The other thirty are a number, so different numbers give
different ids.
-/

namespace ActionBook

/-- How many different ids there are. -/
def ActionId.count : Nat := Nat.pow 16 30

/-- The id of a number; numbers start over after the last id. -/
def ActionId.numbered (n : Nat) : ActionId :=
  let digits := Text.zeroPadded 30 (Text.hex (n % count))
  let group (start length : Nat) : List Char := (digits.drop start).take length
  ⟨String.ofList (group 0 8 ++ '-' :: group 8 4 ++ '-' :: '4' :: group 12 3 ++
    '-' :: '8' :: group 15 3 ++ '-' :: group 18 12)⟩

end ActionBook
