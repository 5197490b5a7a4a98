import ActionBook.Http.Message

/-!
# `Http.Chunks`: bodies that come in chunks

A body whose length is not known beforehand comes in chunks. In front of each there is a line that tells
its size in hexadecimal digits, and behind it the end of a line; a chunk without octets is the last one.
Trailers may follow, headers on lines of their own, up to a line that is empty. They are checked, and
then they are dropped.
-/

namespace ActionBook.Http

/-! ## Lines -/

/-- The end of a line: carriage return and line feed. -/
def lineEnd : Text.Octets := [0x0D, 0x0A]

/-- What comes after the end of a line, if that is in front. -/
def afterLineEnd? : Text.Octets → Option Text.Octets
  | first :: second :: rest => if first = 0x0D ∧ second = 0x0A then some rest else none
  | _ => none

/-- The line in front, without its end, and what comes after it. -/
def readLine? (octets : Text.Octets) : Option (Text.Octets × Text.Octets) :=
  (afterLineEnd? (octets.dropWhile (· ≠ 0x0D))).map fun rest =>
    (octets.takeWhile (· ≠ 0x0D), rest)

theorem length_of_afterLineEnd? {octets rest : Text.Octets} (h : afterLineEnd? octets = some rest) :
    rest.length < octets.length := by
  unfold afterLineEnd? at h
  split at h
  · split at h
    · cases h
      simp only [List.length_cons]
      omega
    · cases h
  · cases h

theorem length_of_readLine? {octets line rest : Text.Octets}
    (h : readLine? octets = some (line, rest)) : rest.length < octets.length := by
  obtain ⟨after, hafter, heq⟩ := Option.map_eq_some_iff.1 h
  cases heq
  exact Nat.lt_of_lt_of_le (length_of_afterLineEnd? hafter) (List.dropWhile_suffix _).length_le

/-! ## Trailers -/

/-- The number of octets that trailers may have, with the ends of their lines. -/
def trailerRoom : Nat := 16383

/-- Whether a line is a header: a name, a colon and a value. -/
def isHeaderLine (line : Text.Octets) : Bool :=
  match ascii? (line.takeWhile (· ≠ 0x3A)), line.dropWhile (· ≠ 0x3A) with
  | some name, _ :: value => isHeaderName name && isHeaderOctets value
  | _, _ => false

/-- The lines up to one that is empty. -/
def readLines? (octets : Text.Octets) : Option (List Text.Octets) :=
  match h : readLine? octets with
  | none => none
  | some ([], _) => some []
  | some (line, rest) =>
    have : rest.length < octets.length := length_of_readLine? h
    (readLines? rest).map (line :: ·)
termination_by octets.length

/-- Whether there are trailers in front, if only none. -/
def hasTrailers (octets : Text.Octets) : Bool :=
  match readLines? octets with
  | none => false
  | some lines =>
    lines.length ≤ headerLimit && lines.all isHeaderLine &&
      (lines.flatMap (· ++ lineEnd) ++ lineEnd).length ≤ trailerRoom

/-! ## Chunks -/

/-- The number that the size of a chunk stays below. -/
def sizeLimit : Nat := Nat.pow 2 64

/-- The number of octets that all extensions within a body may have. -/
def extensionRoom : Nat := 16383

/-- Whether an octet is a hexadecimal digit. -/
def isHexOctet (b : UInt8) : Bool := Text.isDigitIn 16 (Char.ofNat b.toNat)

/-- The number of octets in an extension after its semicolon; there may be none. -/
def extensionLength? : Text.Octets → Option Nat
  | [] => some 0
  | sign :: extension => if sign = 0x3B ∧ 0x0A ∉ extension then some extension.length else none

/-- The size that a line tells, and the number of octets in its extension. Blanks may come after the
size; the extension has no meaning here. -/
def readSize? (line : Text.Octets) : Option (Nat × Nat) :=
  let digits := Text.decodeLossy (line.takeWhile isHexOctet)
  let size := Text.ofDigits 16 digits
  if digits.isEmpty ∨ sizeLimit ≤ size then none
  else (extensionLength? ((line.dropWhile isHexOctet).dropWhile isGap)).map (size, ·)

/-- What the chunks in front hold, up to the last one, if their extensions have no more octets than
there is room for. -/
def readChunks? (room : Nat) (octets : Text.Octets) : Option Text.Octets :=
  match h : readLine? octets with
  | none => none
  | some (line, rest) =>
    match readSize? line with
    | none => none
    | some (size, extension) =>
      if room < extension then none
      else if size = 0 then if hasTrailers rest then some [] else none
      else
        match hdata : afterLineEnd? (rest.drop size) with
        | none => none
        | some left =>
          have : left.length < octets.length := by
            have := length_of_readLine? h
            have := length_of_afterLineEnd? hdata
            simp only [List.length_drop] at this
            omega
          (readChunks? (room - extension) left).map (rest.take size ++ ·)
termination_by octets.length

end ActionBook.Http
