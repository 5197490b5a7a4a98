import ActionBook.Text.Hex
import ActionBook.Text.Scanner
import ActionBook.Timestamp.Basic
import ActionBook.Toml.Basic

/-!
# `Toml.Scalar`: texts, numbers and moments

The four kinds of quoted text, whole and floating-point numbers, truth values, and dates with times.
-/

namespace ActionBook.Toml

open Scanner

/-! ## Texts -/

/-- Whether a character may stand in a line: tabs and everything else that is no ASCII control. -/
def isLineChar (c : Char) : Bool :=
  c = '\t' || (0x20 ≤ c.toNat && c.toNat ≤ 0x7E) || 0x80 ≤ c.toNat

/-- Spaces and tabs. -/
def isGap (c : Char) : Bool := c = ' ' || c = '\t'

/-- The character of a one-letter escape. -/
def escapeLetter? (c : Char) : Option Char :=
  if c = 'b' then some '\x08'
  else if c = 't' then some '\t'
  else if c = 'n' then some '\n'
  else if c = 'f' then some '\x0c'
  else if c = 'r' then some '\r'
  else if c = '"' then some '"'
  else if c = '\\' then some '\\'
  else none

/-- The character of the code point that is written in `count` hexadecimal digits. -/
def codePoint? (count : Nat) (text : List Char) : Option (Char × List Char) :=
  let digits := text.take count
  let n := Text.ofDigits 16 digits
  if digits.length = count ∧ digits.all (Text.isDigitIn 16) ∧ n.isValidChar then
    some (Char.ofNat n, text.drop count)
  else none

/-- The character of an escape whose backslash has been read, and the text after it. -/
def escape? : List Char → Option (Char × List Char)
  | [] => none
  | c :: rest =>
    if c = 'u' then codePoint? 4 rest
    else if c = 'U' then codePoint? 8 rest
    else (escapeLetter? c).map fun e => (e, rest)

/-- An escape takes characters. -/
theorem length_escape? {text rest : List Char} {c : Char} (h : escape? text = some (c, rest)) :
    rest.length < text.length := by
  cases text with
  | nil => simp [escape?] at h
  | cons d text =>
    have hpoint (count : Nat) : codePoint? count text = some (c, rest) →
        rest.length < (d :: text).length := by
      intro h
      simp only [codePoint?] at h
      split at h
      · simp only [Option.some.injEq, Prod.mk.injEq] at h
        rw [← h.2]
        simp only [List.length_drop, List.length_cons]
        omega
      · simp at h
    rw [escape?] at h
    split at h
    · exact hpoint _ h
    · split at h
      · exact hpoint _ h
      · simp only [Option.map_eq_some_iff, Prod.mk.injEq] at h
        obtain ⟨e, -, -, rfl⟩ := h
        simp

/-- The text up to the closing quote of one line, with its escapes replaced. -/
def basicText (text : List Char) : Option (List Char × List Char) :=
  match text with
  | [] => none
  | '"' :: rest => some ([], rest)
  | '\\' :: rest =>
    match h : escape? rest with
    | none => none
    | some (c, rest') =>
      have := length_escape? h
      (basicText rest').map fun (s, left) => (c :: s, left)
  | c :: rest =>
    if isLineChar c then (basicText rest).map fun (s, left) => (c :: s, left) else none
termination_by text.length

/-- The text up to the closing apostrophe of one line. -/
def literalText : List Char → Option (List Char × List Char)
  | [] => none
  | c :: rest =>
    if c = '\'' then some ([], rest)
    else if isLineChar c then (literalText rest).map fun (s, left) => (c :: s, left)
    else none

/-- If three quotes or more close a text, the quotes that still belong to it and the text after
them: of up to five quotes the last three close. `rest` follows the first of the quotes. -/
def closing? (quote : Char) (rest : List Char) : Option (List Char × List Char) :=
  let others := (rest.takeWhile (· = quote)).length
  if others < 2 then none
  else
    let extra := min (others - 2) 2
    some (List.replicate extra quote, rest.drop (extra + 2))

/-- The text up to three closing quotes, with its escapes replaced. After a backslash at the end of
a line, which sets `trimming`, everything up to the next character that is no blank is left out. -/
def basicLines (trimming : Bool) (text : List Char) : Option (List Char × List Char) :=
  match text with
  | [] => none
  | '\r' :: '\n' :: rest =>
    if trimming then basicLines true rest
    else (basicLines false rest).map fun (s, left) => ('\n' :: s, left)
  | '\\' :: rest =>
    match rest.dropWhile isGap with
    | '\n' :: _ => basicLines true rest
    | '\r' :: '\n' :: _ => basicLines true rest
    | _ =>
      match h : escape? rest with
      | none => none
      | some (c, rest') =>
        have := length_escape? h
        (basicLines false rest').map fun (s, left) => (c :: s, left)
  | c :: rest =>
    if trimming && (isGap c || c = '\n') then basicLines true rest
    else if c = '"' then
      match closing? '"' rest with
      | some (quotes, left) => some (quotes, left)
      | none => (basicLines false rest).map fun (s, left) => ('"' :: s, left)
    else if isLineChar c || c = '\n' then
      (basicLines false rest).map fun (s, left) => (c :: s, left)
    else none
termination_by text.length

/-- The text up to three closing apostrophes. -/
def literalLines : List Char → Option (List Char × List Char)
  | [] => none
  | '\r' :: '\n' :: rest => (literalLines rest).map fun (s, left) => ('\n' :: s, left)
  | c :: rest =>
    if c = '\'' then
      match closing? '\'' rest with
      | some (quotes, left) => some (quotes, left)
      | none => (literalLines rest).map fun (s, left) => ('\'' :: s, left)
    else if isLineChar c || c = '\n' then
      (literalLines rest).map fun (s, left) => (c :: s, left)
    else none

/-- The end of a line. -/
def newLine : Scanner Unit := char '\n' <|> word ['\r', '\n']

/-- A quoted text on one line. -/
def lineText : Scanner String := do
  let text ← (do char '"'; basicText) <|> (do char '\''; literalText)
  return String.ofList text

/-- A quoted text, on one line or on several; a line break right after three opening quotes is left
out. -/
def quotedText : Scanner String :=
  (do
    word ['"', '"', '"']
    let _ ← optional newLine
    return String.ofList (← basicLines false)) <|>
  (do
    word ['\'', '\'', '\'']
    let _ ← optional newLine
    return String.ofList (← literalLines)) <|>
  lineText

/-! ## Numbers -/

/-- Digits of which some may be separated by underscores, after the first. -/
def moreDigits (p : Char → Bool) : List Char → List Char × List Char
  | [] => ([], [])
  | ['_'] => ([], ['_'])
  | '_' :: d :: rest =>
    if p d then
      let (digits, left) := moreDigits p rest
      (d :: digits, left)
    else ([], '_' :: d :: rest)
  | d :: rest =>
    if p d then
      let (digits, left) := moreDigits p rest
      (d :: digits, left)
    else ([], d :: rest)

/-- Digits of which some may be separated by underscores. -/
def digits (p : Char → Bool) : Scanner (List Char) := do
  let first ← satisfy p
  let others ← fun text => some (moreDigits p text)
  return first :: others

/-- Decimal digits. -/
def decimalDigits : Scanner (List Char) := digits Text.isDigit

/-- Decimal digits without needless zeros in front. -/
def wholeDigits : Scanner (List Char) := (do char '0'; return ['0']) <|> decimalDigits

/-- Whether there is a minus sign; there may also be a plus sign. -/
def isNegative : Scanner Bool :=
  (do char '-'; return true) <|> (do char '+'; return false) <|> pure false

/-- A number within 64 bits. -/
def withinRange (n : Int) : Scanner Toml :=
  if -9223372036854775808 ≤ n ∧ n ≤ 9223372036854775807 then pure (.int n) else failure

/-- A whole number in a base other than ten, which a letter after a zero stands for. -/
def basedInteger (letter : Char) (base : Nat) : Scanner Toml := do
  word ['0', letter]
  let digits ← digits (Text.isDigitIn base)
  withinRange (Text.ofDigits base digits)

/-- A whole number. -/
def integer : Scanner Toml :=
  basedInteger 'x' 16 <|> basedInteger 'o' 8 <|> basedInteger 'b' 2 <|> do
    let negative ← isNegative
    let n := Int.ofNat (Text.ofDigits 10 (← wholeDigits))
    withinRange (if negative then -n else n)

/-- The digits after a point. -/
def fraction : Scanner (List Char) := do char '.'; decimalDigits

/-- An exponent. -/
def exponent : Scanner Int := do
  char 'e' <|> char 'E'
  let negative ← isNegative
  let n := Int.ofNat (Text.ofDigits 10 (← decimalDigits))
  return if negative then -n else n

/-- A floating-point number in digits, with a fraction or an exponent. One below all of them is
negative infinity; there is none for one above all of them. -/
def decimalFloat : Scanner Toml := do
  let negative ← isNegative
  let whole ← wholeDigits
  let decimals ← optional fraction
  let power ← optional exponent
  guard (decimals.isSome || power.isSome)
  let decimals := decimals.getD []
  let n := Text.ofDigits 10 (whole ++ decimals)
  match Binary64.ofDecimal negative n (power.getD 0 - Int.ofNat decimals.length) with
  | some x => return .float (.finite x)
  | none => if negative then return .float (.infinite true) else failure

/-- An infinity or not a number. -/
def namedFloat : Scanner Toml := do
  let negative ← isNegative
  (do word ['i', 'n', 'f']; return .float (.infinite negative)) <|>
    (do word ['n', 'a', 'n']; return .float .notANumber)

/-! ## Moments -/

/-- Two digits of a number within bounds. -/
def twoDigits (low high : Nat) : Scanner Nat := do
  let a ← satisfy Text.isDigit
  let b ← satisfy Text.isDigit
  let n := Text.ofDigits 10 [a, b]
  guard (low ≤ n && n ≤ high)
  return n

/-- A date: `2024-02-29`. -/
def date : Scanner Unit := do
  let a ← twoDigits 0 99
  let b ← twoDigits 0 99
  char '-'
  let month ← twoDigits 1 12
  char '-'
  let day ← twoDigits 1 31
  guard (day ≤ daysInMonth (a * 100 + b) month)

/-- A time of day: `12:30:59.5`. -/
def time : Scanner Unit := do
  let _ ← twoDigits 0 23
  char ':'
  let _ ← twoDigits 0 59
  char ':'
  let _ ← twoDigits 0 60
  let _ ← optional do
    char '.'
    let _ ← satisfy Text.isDigit
    takeWhile Text.isDigit

/-- The distance of a local time from coordinated universal time. -/
def offset : Scanner Unit :=
  char 'Z' <|> char 'z' <|> do
    char '+' <|> char '-'
    let _ ← twoDigits 0 23
    char ':'
    let _ ← twoDigits 0 59

/-- A date, a date with a time, or a time. -/
def dateOrTime : Scanner Toml := do
  let text ← source <| (do
    date
    let _ ← optional do
      char 'T' <|> char 't' <|> char ' '
      time
      let _ ← optional offset) <|> time
  return .moment (String.ofList text)

/-! ## All scalars -/

/-- A truth value. -/
def truth : Scanner Toml :=
  (do word ['t', 'r', 'u', 'e']; return .bool true) <|>
    (do word ['f', 'a', 'l', 's', 'e']; return .bool false)

/-- A value without parts. -/
def scalar : Scanner Toml :=
  (do return .text (← quotedText)) <|> dateOrTime <|> decimalFloat <|> namedFloat <|> integer <|>
    truth

end ActionBook.Toml
