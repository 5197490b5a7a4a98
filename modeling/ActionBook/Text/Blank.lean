/-!
# `Text.Blank`: blank characters and trimming

A character is *blank* when Unicode gives it the property White_Space. Trimming removes the blank
characters at both ends of a text and nothing else; a text is blank when trimming leaves nothing.

The text functions work on lists of characters, with thin wrappers on `String`.
-/

namespace ActionBook.Text

/-- Unicode White_Space: the ASCII controls tab to carriage return, the space, and eleven spaces and
separators beyond ASCII. Zero-width characters and the byte order mark are not in it. -/
def isBlank (c : Char) : Bool :=
  let n := c.toNat
  (0x9 ≤ n && n ≤ 0xD) || n == 0x20 || n == 0x85 || n == 0xA0 || n == 0x1680 ||
  (0x2000 ≤ n && n ≤ 0x200A) || n == 0x2028 || n == 0x2029 || n == 0x202F || n == 0x205F ||
  n == 0x3000

/-! ## Trimming -/

/-- The text without its leading blank characters. -/
def trimStart (text : List Char) : List Char := text.dropWhile isBlank

/-- The text without its trailing blank characters. -/
def trimEnd (text : List Char) : List Char := (text.reverse.dropWhile isBlank).reverse

/-- The text without the blank characters at either end. -/
def trim (text : List Char) : List Char := trimEnd (trimStart text)

/-- The text without the blank characters at either end. -/
def trimmed (text : String) : String := String.ofList (trim text.toList)

/-- A text with nothing but blank characters in it, the empty text included. -/
def isBlankText (text : String) : Bool := text.toList.all isBlank

/-! ## Cutting at a fixed character -/

/-- The text before the first `c` and the text after it, if `c` occurs. -/
def cutAt (c : Char) : List Char → Option (List Char × List Char)
  | [] => none
  | d :: rest =>
    if d = c then some ([], rest)
    else (cutAt c rest).map fun (before, after) => (d :: before, after)

/-- A cut loses the one character it was made at. -/
theorem eq_of_cutAt {c : Char} {text before after : List Char}
    (h : cutAt c text = some (before, after)) : text = before ++ c :: after := by
  induction text generalizing before with
  | nil => simp [cutAt] at h
  | cons d rest ih =>
    rw [cutAt] at h
    split at h
    next hd => simp_all
    next =>
      obtain ⟨⟨b, a⟩, hcut, heq⟩ := Option.map_eq_some_iff.1 h
      simp only [Prod.mk.injEq] at heq
      obtain ⟨rfl, rfl⟩ := heq
      simp [ih hcut]

/-- The pieces between the occurrences of `c`; one more than there are occurrences. -/
def splitOn (c : Char) : List Char → List (List Char)
  | [] => [[]]
  | d :: rest =>
    if d = c then [] :: splitOn c rest
    else match splitOn c rest with
      | [] => [[d]]
      | piece :: pieces => (d :: piece) :: pieces

end ActionBook.Text
