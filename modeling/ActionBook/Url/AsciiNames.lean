import ActionBook.Url.Host

/-!
# `Url.AsciiNames`: names without tables of Unicode

What a program goes by that has no tables of Unicode.
-/

namespace ActionBook.Url

/-- Names are in ASCII or there is none. Parts that stand for others are taken as they are. -/
instance asciiNames : Idna where
  toAscii? name := if name.all (·.toNat < 0x80) then some (name.map Char.toLower) else none

end ActionBook.Url
