import ActionBook.Url.Basic

/-!
# `Url.Parser`: from text to address

An address is read from left to right: scheme, user and host and port up to the first slash,
question mark or fragment sign, then path, query and fragment. Every part is cut off before the next
one is looked at, so no part can change what was made of those before it.

Schemes with a special meaning take backslashes for slashes, need a host, and have a path that is
never empty. The letter of a drive can be part of a path under any scheme: no dots lead above it.
-/

namespace ActionBook.Url

/-! ## Schemes -/

/-- The schemes with a special meaning and their ports. -/
def specialSchemes : List (List Char × Option Nat) :=
  [(['h', 't', 't', 'p'], some 80), (['h', 't', 't', 'p', 's'], some 443),
   (['w', 's'], some 80), (['w', 's', 's'], some 443), (['f', 't', 'p'], some 21),
   (['f', 'i', 'l', 'e'], none)]

/-- Whether a scheme has a special meaning. -/
def isSpecial (scheme : List Char) : Bool := (specialSchemes.lookup scheme).isSome

/-- The port that belongs to a scheme. -/
def defaultPort? (scheme : List Char) : Option Nat := (specialSchemes.lookup scheme).join

/-- The scheme of files. -/
def fileScheme : List Char := ['f', 'i', 'l', 'e']

/-- Whether a character may stand in a scheme after the first. -/
def isSchemeChar (c : Char) : Bool := c.isAlphanum || c = '+' || c = '-' || c = '.'

/-- The scheme in lower case, and the text after its colon. -/
def cutScheme? (text : List Char) : Option (List Char × List Char) :=
  match text.takeWhile isSchemeChar, text.dropWhile isSchemeChar with
  | first :: others, ':' :: rest =>
    if first.isAlpha then some ((first :: others).map Char.toLower, rest) else none
  | _, _ => none

/-! ## The authority -/

/-- Whether a character ends the authority. -/
def endsAuthority (special : Bool) (c : Char) : Bool :=
  c = '/' || c = '?' || c = '#' || (special && c = '\\')

/-- The text before the last `@` and the text after it. -/
def cutUser? (text : List Char) : Option (List Char × List Char) :=
  (Text.cutAt '@' text.reverse).map fun (host, user) => (user.reverse, host.reverse)

/-- User name and password; an empty password is none. -/
def readUser (text : List Char) : List Char × Option (List Char) :=
  match Text.cutAt ':' text with
  | none => (escaped keptInUser text, none)
  | some (username, []) => (escaped keptInUser username, none)
  | some (username, password) => (escaped keptInUser username, some (escaped keptInUser password))

/-- The text up to the first colon that is not in brackets, and the text from there on. -/
def cutHost (inBrackets : Bool) : List Char → List Char × List Char
  | [] => ([], [])
  | c :: rest =>
    if c = ':' ∧ inBrackets = false then ([], c :: rest)
    else
      let inBrackets := if c = '[' then true else if c = ']' then false else inBrackets
      let (host, left) := cutHost inBrackets rest
      (c :: host, left)

/-- The port in digits; none, if there are no digits or it belongs to the scheme. -/
def readPort (scheme digits : List Char) : Except ParseError (Option Nat) :=
  let port := Text.ofDigits 10 digits
  if digits.all Text.isDigit = false ∨ 65535 < port then .error .invalidPort
  else if digits.isEmpty ∨ defaultPort? scheme = some port then .ok none
  else .ok (some port)

/-- User, host and port. The text left over comes before the path; a backslash after the port is all
it can begin with. -/
def readAuthority [Idna] (scheme text : List Char) (followed : Bool) :
    Except ParseError ((List Char × Option (List Char)) × Host × Option Nat × List Char) := do
  let special := isSpecial scheme
  let (user, rest) ←
    match cutUser? text with
    | none => pure (([], none), text)
    | some ([], []) => if followed then throw .emptyHost else pure (([], none), [])
    | some (user, rest) => pure (readUser user, rest)
  let (hostText, rest) := cutHost false rest
  let host ← if special then Host.ofText hostText else Host.ofTextAsIs hostText
  let (port, left) ←
    match rest with
    | ':' :: rest =>
      if host.isEmpty then throw .emptyHost
      else pure (← readPort scheme (rest.takeWhile (· ≠ '\\')), rest.dropWhile (· ≠ '\\'))
    | rest => pure (none, rest)
  if host.isEmpty ∧ user ≠ ([], none) then throw .emptyHost
  return (user, host, port, left)

/-! ## Path, query and fragment -/

/-- Whether a segment stands for the place it is at. -/
def isSingleDot (segment : List Char) : Bool :=
  let segment := segment.map Char.toLower
  segment = ['.'] || segment = ['%', '2', 'e']

/-- Whether a segment stands for the place above. -/
def isDoubleDot (segment : List Char) : Bool :=
  let segment := segment.map Char.toLower
  segment = ['.', '.'] || segment = ['.', '%', '2', 'e'] || segment = ['%', '2', 'e', '.'] ||
    segment = ['%', '2', 'e', '%', '2', 'e']

/-- Whether a segment is the letter of a drive with its colon, or with a bar in its place. -/
def isDrive (segment : List Char) : Bool :=
  match segment with
  | [letter, sign] => letter.isAlpha && (sign = ':' || sign = '|')
  | _ => false

/-- How a segment is written at a place. In the first place of a file's path, a drive has a
colon. -/
def writtenAt (ofFile : Bool) (place : List (List Char)) (segment : List Char) : List Char :=
  if ofFile && place.isEmpty && isDrive segment then segment.take 1 ++ [':']
  else escaped keptInPath segment

/-- Follows segments from a place, given by its segments from the last to the first. No dots lead
above a drive, under any scheme; dots at the end leave an empty segment. -/
def follow (ofFile : Bool) (place : List (List Char)) : List (List Char) → List (List Char)
  | [] => place.reverse
  | segment :: rest =>
    if isDoubleDot segment then
      let above := if place.head?.any isDrive then place else place.tail
      follow ofFile (if rest.isEmpty then [] :: above else above) rest
    else if isSingleDot segment then
      follow ofFile (if rest.isEmpty then [] :: place else place) rest
    else follow ofFile (writtenAt ofFile place segment :: place) rest

/-- The text with slashes for backslashes. -/
def withSlashes (text : List Char) : List Char := text.map fun c => if c = '\\' then '/' else c

/-- The segments of a text that follows a slash. -/
def readSegments (special : Bool) (text : List Char) : List (List Char) :=
  follow false [] (Text.splitOn '/' (if special then withSlashes text else text))

/-- The path of an address with a host. Under a special scheme it has a segment at least. -/
def readPath (special : Bool) (text : List Char) : Path :=
  match text with
  | [] => .segments (if special then [[]] else [])
  | c :: rest =>
    if c = '/' || (special && c = '\\') then .segments (readSegments special rest)
    else .segments (readSegments special (c :: rest))

/-- Cuts off query and fragment: the path, what follows a question mark and what follows a fragment
sign, the latter two escaped. -/
def cutTail (special : Bool) (text : List Char) :
    List Char × Option (List Char) × Option (List Char) :=
  let (text, fragment) :=
    match Text.cutAt '#' text with
    | none => (text, none)
    | some (text, fragment) => (text, some (escaped keptInFragment fragment))
  match Text.cutAt '?' text with
  | none => (text, none, fragment)
  | some (path, query) => (path, some (escaped (keptInQuery special) query), fragment)

/-! ## Files -/

/-- The segments of a file's path; there are no empty ones in front of others. -/
def filePath (segments : List (List Char)) : Path :=
  match segments.dropWhile List.isEmpty with
  | [] => .segments [[]]
  | segments => .segments segments

/-- The address of a file. Two slashes come before a host, unless a drive follows them. The host of
this machine is left out, and so is any host before a drive; a path without a host begins with the
slash itself. -/
def readLocal [Idna] (text : List Char) : Except ParseError Url := do
  let (path, query, fragment) := cutTail true text
  let (hostText, pathText) :=
    match withSlashes path with
    | '/' :: '/' :: rest =>
      let name := rest.takeWhile (· ≠ '/')
      if isDrive name then ([], rest) else (name, rest.dropWhile (· ≠ '/'))
    | '/' :: rest => ([], rest)
    | rest => ([], rest)
  let named ← if hostText.isEmpty then pure (.name []) else Host.ofText hostText
  let isHere := named = .name ['l', 'o', 'c', 'a', 'l', 'h', 'o', 's', 't']
  let host := if isHere then .name [] else named
  let segments := follow true [] <| Text.splitOn '/' <|
    if host.isEmpty then pathText else pathText.drop 1
  let host := if segments.head?.any isDrive then .name [] else host
  return { scheme := fileScheme, host := some host, path := filePath segments, query, fragment }

/-! ## Addresses -/

/-- Reads what follows the scheme of an address with a host. -/
def readHosted [Idna] (scheme text : List Char) : Except ParseError Url := do
  let special := isSpecial scheme
  let authority := text.takeWhile (!endsAuthority special ·)
  let rest := text.dropWhile (!endsAuthority special ·)
  let ((username, password), host, port, left) ← readAuthority scheme authority (!rest.isEmpty)
  let (path, query, fragment) := cutTail special (left ++ rest)
  return { scheme, username, password, host := some host, port, path := readPath special path,
           query, fragment }

/-- Reads what follows the scheme of an address without a host. -/
def readHostless (scheme text : List Char) : Url :=
  let (path, query, fragment) := cutTail false text
  let path := match path with
    | '/' :: rest => Path.segments (readSegments false rest)
    | path => .whole (escaped isPlain path)
  { scheme, path, query, fragment }

/-- The text without the controls and spaces at its ends, and without tabs and line breaks. -/
def cleaned (text : List Char) : List Char :=
  let isEdge (c : Char) : Bool := c.toNat ≤ 0x20
  let inner := ((text.dropWhile isEdge).reverse.dropWhile isEdge).reverse
  inner.filter fun c => !(c = '\t' || c = '\n' || c = '\r')

/-- The address that a text stands for. -/
def parse [Idna] (text : List Char) : Except ParseError Url :=
  match cutScheme? (cleaned text) with
  | none => .error .relative
  | some (scheme, rest) =>
    if scheme = fileScheme then readLocal rest
    else if isSpecial scheme then
      readHosted scheme (rest.dropWhile fun c => c = '/' || c = '\\')
    else match rest with
      | '/' :: '/' :: rest => readHosted scheme rest
      | rest => .ok (readHostless scheme rest)

end ActionBook.Url
