/-!
# `Text.Utf8`: octets of a text and texts of octets

`encode` writes a text as UTF-8. `decode?` reads octets that are UTF-8 throughout, and
`decodeLossy` reads any octets: each longest run of octets that starts a character without
completing it, and each octet that cannot start one, becomes a single replacement character.
-/

namespace ActionBook.Text

/-- Octets, the units in which texts travel. -/
abbrev Octets := List UInt8

/-- The UTF-8 octets of a text. -/
def encode (text : List Char) : Octets := text.flatMap String.utf8EncodeChar

/-- The UTF-8 octets of a text. -/
def octets (text : String) : Octets := encode text.toList

/-- The number of octets of a text. -/
def octetCount (text : List Char) : Nat := text.foldl (fun n c => n + c.utf8Size) 0

/-! ## Reading one character -/

/-- What the front of some octets is: a whole character with the octets after it, or a number of
octets that belong to no character. -/
inductive Front where
  | character (c : Char) (rest : Octets)
  | invalid (rest : Octets)

/-- The least and greatest second octet that may follow a first octet of a character of more than
one octet, and how many octets follow in all. These bounds leave out overlong forms, surrogates and
everything beyond U+10FFFF. -/
def tailShape (first : UInt8) : Option (UInt8 × UInt8 × Nat) :=
  if 0xC2 ≤ first && first ≤ 0xDF then some (0x80, 0xBF, 1)
  else if first == 0xE0 then some (0xA0, 0xBF, 2)
  else if 0xE1 ≤ first && first ≤ 0xEC then some (0x80, 0xBF, 2)
  else if first == 0xED then some (0x80, 0x9F, 2)
  else if 0xEE ≤ first && first ≤ 0xEF then some (0x80, 0xBF, 2)
  else if first == 0xF0 then some (0x90, 0xBF, 3)
  else if 0xF1 ≤ first && first ≤ 0xF3 then some (0x80, 0xBF, 3)
  else if first == 0xF4 then some (0x80, 0x8F, 3)
  else none

/-- Reads the remaining octets of a character, each within its bounds; the bounds of every octet
after the second are those of any continuation octet. -/
def readTail (low high : UInt8) (owed : Nat) (value : Nat) (rest : Octets) : Front :=
  match owed, rest with
  | 0, rest => .character (Char.ofNat value) rest
  | owed + 1, b :: rest' =>
    if low ≤ b && b ≤ high then
      readTail 0x80 0xBF owed (value * 64 + (b.toNat - 0x80)) rest'
    else .invalid rest
  | _ + 1, [] => .invalid []

/-- The bits of the first octet that belong to the character, by the number of octets after it. -/
def leadBits (first : UInt8) (owed : Nat) : Nat :=
  match owed with
  | 1 => first.toNat - 0xC0
  | 2 => first.toNat - 0xE0
  | _ => first.toNat - 0xF0

/-- Reads the character at the front of the octets `first :: rest`. -/
def front (first : UInt8) (rest : Octets) : Front :=
  if first < 0x80 then .character (Char.ofNat first.toNat) rest
  else match tailShape first with
    | none => .invalid rest
    | some (low, high, owed) => readTail low high owed (leadBits first owed) rest

/-- The octets after what was read. -/
def Front.rest : Front → Octets
  | .character _ rest => rest
  | .invalid rest => rest

theorem length_readTail_le (low high : UInt8) (owed value : Nat) (rest : Octets) :
    (readTail low high owed value rest).rest.length ≤ rest.length := by
  induction owed generalizing low high value rest with
  | zero => simp [readTail, Front.rest]
  | succ owed ih =>
    cases rest with
    | nil => simp [readTail, Front.rest]
    | cons b rest' =>
      rw [readTail]
      split
      · have := ih 0x80 0xBF (value * 64 + (b.toNat - 0x80)) rest'
        simp only [List.length_cons]
        omega
      · simp [Front.rest]

/-- Reading a character takes at least its first octet. -/
theorem length_front_le (first : UInt8) (rest : Octets) :
    (front first rest).rest.length ≤ rest.length := by
  rw [front]
  split
  · simp [Front.rest]
  · split
    · simp [Front.rest]
    · exact length_readTail_le ..

/-! ## Reading whole texts -/

/-- The text that the octets encode, if they are UTF-8 throughout. -/
def decode? : Octets → Option (List Char)
  | [] => some []
  | first :: rest =>
    match h : front first rest with
    | .character c rest' =>
      have : rest'.length ≤ rest.length := by
        have := length_front_le first rest
        rwa [h] at this
      (decode? rest').map (c :: ·)
    | .invalid _ => none
termination_by o => o.length

/-- The text of any octets, with one U+FFFD for every longest stretch that is no character. -/
def decodeLossy : Octets → List Char
  | [] => []
  | first :: rest =>
    match h : front first rest with
    | .character c rest' =>
      have : rest'.length ≤ rest.length := by
        have := length_front_le first rest
        rwa [h] at this
      c :: decodeLossy rest'
    | .invalid rest' =>
      have : rest'.length ≤ rest.length := by
        have := length_front_le first rest
        rwa [h] at this
      '\uFFFD' :: decodeLossy rest'
termination_by o => o.length

end ActionBook.Text
