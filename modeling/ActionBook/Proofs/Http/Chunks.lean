import ActionBook.Http.Chunks
import ActionBook.Proofs.Text.Ascii
import ActionBook.Proofs.Text.Cutting
import ActionBook.Proofs.Text.Digits
import ActionBook.Proofs.Text.Replacing

/-!
# `Http.Chunks`: what is written in chunks

`Chunked` says without a reader how octets are written in chunks: with lines in front of them that may
have extensions, and with trailers behind the last one. What is written so is read back, whatever comes
after it, and nothing else is read (`readChunks?_eq_some_iff`).
-/

namespace ActionBook.Http

open Text (Octets encode IsNumeral)

variable {octets line rest data content written : Octets} {lines : List Octets}
  {text name digits : List Char} {size extension room : Nat}

/-! ## Octets and their text -/

theorem ascii?_eq_some_iff :
    ascii? octets = some text ↔ octets = encode text ∧ ∀ c ∈ text, c.toNat < 0x80 := by
  unfold ascii?
  constructor
  · intro h
    split at h
    next hall =>
      have hascii : ∀ b ∈ octets, b < 0x80 := by simpa using hall
      cases h
      refine ⟨(Text.encode_decodeLossy hascii).symm, fun c hc => ?_⟩
      rw [Text.decodeLossy_of_ascii hascii] at hc
      obtain ⟨b, hb, rfl⟩ := List.mem_map.1 hc
      rw [Text.toNat_asciiChar]
      exact UInt8.lt_iff_toNat_lt.1 (hascii b hb)
    next => cases h
  · rintro ⟨rfl, htext⟩
    have hall : ((encode text).all (· < 0x80)) = true :=
      List.all_eq_true.2 fun b hb => decide_eq_true (Text.of_mem_encode htext hb).2
    rw [if_pos hall, Text.decodeLossy_encode]

/-! ## Lines -/

theorem afterLineEnd?_eq_some_iff : afterLineEnd? octets = some rest ↔ octets = lineEnd ++ rest := by
  unfold afterLineEnd?
  split
  next first second left =>
    split
    next h =>
      obtain ⟨rfl, rfl⟩ := h
      simp [lineEnd]
    next h =>
      simp only [reduceCtorEq, lineEnd, List.cons_append, List.nil_append, List.cons.injEq, false_iff]
      exact fun ⟨hfirst, hsecond, _⟩ => h ⟨hfirst, hsecond⟩
  next hshort =>
    simp only [reduceCtorEq, false_iff]
    exact hshort _ _ _

theorem readLine?_eq_some_iff :
    readLine? octets = some (line, rest) ↔ octets = line ++ (lineEnd ++ rest) ∧ 0x0D ∉ line := by
  have hmem : (∀ b ∈ line, decide (b ≠ 0x0D) = true) ↔ 0x0D ∉ line := by
    simp only [decide_eq_true_eq]
    exact ⟨fun h hmem => h _ hmem rfl, fun h b hb heq => h (heq ▸ hb)⟩
  rw [readLine?, Option.map_eq_some_iff]
  constructor
  · rintro ⟨after, hafter, heq⟩
    cases heq
    refine ⟨?_, hmem.1 fun b hb => List.mem_takeWhile_imp (p := (fun b => decide (b ≠ 0x0D))) hb⟩
    rw [← afterLineEnd?_eq_some_iff.1 hafter, List.takeWhile_append_dropWhile]
  · rintro ⟨rfl, hline⟩
    have hend : ∀ b ∈ (lineEnd ++ rest).head?, decide (b ≠ 0x0D) = false := by simp [lineEnd]
    refine ⟨rest, afterLineEnd?_eq_some_iff.2 ?_, ?_⟩
    · rw [Text.dropWhile_append_of_head? (hmem.2 hline) hend]
    · rw [Text.takeWhile_append_of_head? (hmem.2 hline) hend]

/-! ## Trailers -/

/-- A header on a line. -/
inductive IsHeaderLine : Octets → Prop
  | intro {name : List Char} {value : Octets} (hname : isHeaderName name = true)
    (hvalue : isHeaderOctets value = true) : IsHeaderLine (encode name ++ 0x3A :: value)

/-- Headers on lines of their own, with an empty line at the end. -/
inductive Trailers : Octets → Prop
  | intro {lines : List Octets} (hlines : ∀ line ∈ lines, IsHeaderLine line)
    (hcount : lines.length ≤ headerLimit)
    (hroom : (lines.flatMap (· ++ lineEnd) ++ lineEnd).length ≤ trailerRoom) :
    Trailers (lines.flatMap (· ++ lineEnd) ++ lineEnd)

theorem of_isTokenChar {c : Char} (h : isTokenChar c = true) :
    c.toNat < 0x80 ∧ c ≠ ':' ∧ c ≠ '\r' := by
  refine ⟨?_, ?_, ?_⟩
  · by_contra hlarge
    have hne (d : Char) (hd : d.toNat < 0x80) : c ≠ d := by
      rintro rfl
      exact hlarge hd
    simp (disch := decide) only [isTokenChar, Bool.or_eq_true, decide_eq_true_eq,
      Text.isAlphanum_iff, hne, or_false] at h
    omega
  all_goals
    rintro rfl
    exact absurd h (by decide)

theorem of_isHeaderName (h : isHeaderName name = true) :
    name ≠ [] ∧ ∀ c ∈ name, c.toNat < 0x80 ∧ c ≠ ':' ∧ c ≠ '\r' := by
  simp only [isHeaderName, isToken, Bool.and_eq_true, Bool.not_eq_true', List.isEmpty_eq_false_iff,
    List.all_eq_true] at h
  exact ⟨h.1.1, fun c hc => of_isTokenChar (h.1.2 c hc)⟩

/-- Neither a colon nor the end of a line is in a name. -/
theorem not_mem_encode_name (h : isHeaderName name = true) :
    0x3A ∉ encode name ∧ 0x0D ∉ encode name := by
  have hname := (of_isHeaderName h).2
  have hmem {b : UInt8} (hb : b ∈ encode name) : Text.asciiChar b ∈ name :=
    (Text.of_mem_encode (fun c hc => (hname c hc).1) hb).1
  exact ⟨fun hb => (hname _ (hmem hb)).2.1 rfl, fun hb => (hname _ (hmem hb)).2.2 rfl⟩

theorem isHeaderLine_iff : isHeaderLine line = true ↔ IsHeaderLine line := by
  unfold isHeaderLine
  constructor
  · intro h
    split at h
    next name colon value hname hvalue =>
      have hcolon : colon = 0x3A := by
        have hhead := Text.head?_dropWhile_eq_false (fun b : UInt8 => decide (b ≠ 0x3A)) line colon
        rw [hvalue] at hhead
        simpa using hhead rfl
      obtain ⟨hname', hvalue'⟩ := (Bool.and_eq_true ..).mp h
      have hline := List.takeWhile_append_dropWhile (p := (fun b : UInt8 => decide (b ≠ 0x3A))) (l := line)
      rw [(ascii?_eq_some_iff.1 hname).1, hvalue, hcolon] at hline
      rw [← hline]
      exact .intro hname' hvalue'
    next => cases h
  · rintro @⟨name, value, hname, hvalue⟩
    have hfront : ∀ b ∈ encode name, decide (b ≠ 0x3A) = true := by
      intro b hb
      refine decide_eq_true ?_
      rintro rfl
      exact (not_mem_encode_name hname).1 hb
    have hrest : ∀ b ∈ (0x3A :: value).head?, decide (b ≠ 0x3A) = false := by simp
    have hascii : ascii? (encode name) = some name :=
      ascii?_eq_some_iff.2 ⟨rfl, fun c hc => ((of_isHeaderName hname).2 c hc).1⟩
    rw [Text.takeWhile_append_of_head? hfront hrest, Text.dropWhile_append_of_head? hfront hrest,
      hascii]
    simp only [hname, hvalue, Bool.and_self]

theorem IsHeaderLine.of_line (h : IsHeaderLine line) : line ≠ [] ∧ 0x0D ∉ line := by
  obtain @⟨name, value, hname, hvalue⟩ := h
  refine ⟨by simp, fun hmem => ?_⟩
  rcases List.mem_append.1 hmem with hmem | hmem
  · exact (not_mem_encode_name hname).2 hmem
  · rcases List.mem_cons.1 hmem with heq | hmem
    · cases heq
    · exact absurd (List.all_eq_true.1 hvalue _ hmem) (by decide)

theorem readLines?_of_nil (h : readLine? octets = some ([], rest)) : readLines? octets = some [] := by
  rw [readLines?]
  split
  next hnone => rw [h] at hnone; cases hnone
  next => rfl
  next hline heq => rw [h] at heq; cases heq; exact (hline rfl).elim

theorem readLines?_of_ne_nil (h : readLine? octets = some (line, rest)) (hline : line ≠ []) :
    readLines? octets = (readLines? rest).map (line :: ·) := by
  rw [readLines?]
  split
  next hnone => rw [h] at hnone; cases hnone
  next heq => rw [h] at heq; cases heq; exact absurd rfl hline
  next heq => rw [h] at heq; cases heq; rfl

/-- Lines are read up to the first that is empty. -/
theorem readLines?_eq_some_iff :
    readLines? octets = some lines ↔ (∀ line ∈ lines, line ≠ [] ∧ 0x0D ∉ line) ∧
      ∃ rest, octets = lines.flatMap (· ++ lineEnd) ++ (lineEnd ++ rest) := by
  constructor
  · intro h
    induction octets using readLines?.induct generalizing lines with
    | case1 octets hnone =>
      rw [readLines?] at h
      split at h
      next => cases h
      next heq => rw [hnone] at heq; cases heq
      next heq => rw [hnone] at heq; cases heq
    | case2 octets rest hread =>
      rw [readLines?_of_nil hread] at h
      cases h
      exact ⟨nofun, rest, (readLine?_eq_some_iff.1 hread).1⟩
    | case3 octets line rest hline hread _ ih =>
      rw [readLines?_of_ne_nil hread hline] at h
      obtain ⟨lines, hlines, rfl⟩ := Option.map_eq_some_iff.1 h
      obtain ⟨hall, left, rfl⟩ := ih hlines
      obtain ⟨rfl, hreturn⟩ := readLine?_eq_some_iff.1 hread
      exact ⟨List.forall_mem_cons.2 ⟨⟨hline, hreturn⟩, hall⟩, left, by simp⟩
  · rintro ⟨hlines, rest, rfl⟩
    induction lines with
    | nil => exact readLines?_of_nil (readLine?_eq_some_iff.2 ⟨rfl, List.not_mem_nil⟩)
    | cons line lines ih =>
      obtain ⟨hline, hmore⟩ := List.forall_mem_cons.1 hlines
      have hread : readLine? ((line :: lines).flatMap (· ++ lineEnd) ++ (lineEnd ++ rest)) =
          some (line, lines.flatMap (· ++ lineEnd) ++ (lineEnd ++ rest)) :=
        readLine?_eq_some_iff.2 ⟨by simp, hline.2⟩
      rw [readLines?_of_ne_nil hread hline.1, ih hmore, Option.map_some]

theorem hasTrailers_iff :
    hasTrailers octets = true ↔ ∃ trailers rest, Trailers trailers ∧ octets = trailers ++ rest := by
  unfold hasTrailers
  constructor
  · intro h
    split at h
    next => cases h
    next lines hlines =>
      simp only [Bool.and_eq_true, decide_eq_true_eq, List.all_eq_true, isHeaderLine_iff] at h
      obtain ⟨-, rest, rfl⟩ := readLines?_eq_some_iff.1 hlines
      exact ⟨_, rest, .intro h.1.2 h.1.1 h.2, by rw [List.append_assoc]⟩
  · rintro ⟨trailers, rest, @⟨lines, hlines, hcount, hroom⟩, rfl⟩
    have hread : readLines? (lines.flatMap (· ++ lineEnd) ++ lineEnd ++ rest) = some lines :=
      readLines?_eq_some_iff.2 ⟨fun line hline => (hlines line hline).of_line, rest,
        by rw [List.append_assoc]⟩
    rw [hread]
    simp only [Bool.and_eq_true, decide_eq_true_eq, List.all_eq_true, isHeaderLine_iff]
    exact ⟨⟨hcount, hlines⟩, hroom⟩

/-! ## Sizes -/

/-- An extension of a number of octets after a semicolon, or none. -/
inductive Extension : Nat → Octets → Prop
  | none : Extension 0 []
  | some {octets : Octets} (hreturn : 0x0D ∉ octets) (hfeed : 0x0A ∉ octets) :
    Extension octets.length (0x3B :: octets)

/-- A line in front of a chunk of a size, with a number of octets in its extension: the digits of the
size, blanks, and the extension. -/
inductive SizeLine (size extension : Nat) : Octets → Prop
  | intro {digits : List Char} {blanks octets : Octets} (hdigits : IsNumeral 16 size digits)
    (hblanks : ∀ b ∈ blanks, isGap b = true) (hextension : Extension extension octets) :
    SizeLine size extension (encode digits ++ (blanks ++ octets))

theorem not_mem_of_isNumeral (h : IsNumeral 16 size digits) : 0x0D ∉ encode digits := by
  intro hmem
  have hascii : ∀ c ∈ digits, c.toNat < 0x80 := fun c hc => Text.toNat_lt_of_isDigitIn (h.isDigitIn c hc)
  exact absurd (h.isDigitIn _ (Text.of_mem_encode hascii hmem).1) (by decide)

theorem not_mem_of_isGap {blanks : Octets} (h : ∀ b ∈ blanks, isGap b = true) : 0x0D ∉ blanks :=
  fun hmem => absurd (h _ hmem) (by decide)

theorem Extension.not_mem (h : Extension extension octets) : 0x0D ∉ octets := by
  cases h with
  | none => exact List.not_mem_nil
  | some hreturn _ =>
    rw [List.mem_cons, not_or]
    exact ⟨by decide, hreturn⟩

theorem SizeLine.not_mem (h : SizeLine size extension line) : 0x0D ∉ line := by
  obtain ⟨hdigits, hblanks, hextension⟩ := h
  simp [not_mem_of_isNumeral hdigits, not_mem_of_isGap hblanks, hextension.not_mem]

theorem extensionLength?_eq_some_iff (h : 0x0D ∉ octets) :
    extensionLength? octets = some extension ↔ Extension extension octets := by
  cases octets with
  | nil =>
    rw [extensionLength?]
    constructor
    · rintro ⟨⟩
      exact .none
    · rintro ⟨⟩
      rfl
  | cons sign octets =>
    rw [extensionLength?]
    constructor
    · intro hlength
      split at hlength
      next hsign =>
        cases hlength
        rw [hsign.1] at h ⊢
        exact .some (fun hmem => h (List.mem_cons_of_mem _ hmem)) hsign.2
      next => cases hlength
    · rintro ⟨⟩
      next hfeed => exact if_pos ⟨rfl, hfeed⟩

theorem isHexOctet_of_mem (h : IsNumeral 16 size digits) :
    ∀ b ∈ encode digits, isHexOctet b = true := by
  intro b hb
  have hascii : ∀ c ∈ digits, c.toNat < 0x80 := fun c hc => Text.toNat_lt_of_isDigitIn (h.isDigitIn c hc)
  exact h.isDigitIn _ (Text.of_mem_encode hascii hb).1

theorem isHexOctet_of_isGap {b : UInt8} (h : isGap b = true) : isHexOctet b = false := by
  simp only [isGap, Bool.or_eq_true, beq_iff_eq] at h
  rcases h with rfl | rfl
  all_goals decide

/-- The digits in front of a line are a numeral. -/
theorem exists_isNumeral (h : Text.decodeLossy (line.takeWhile isHexOctet) ≠ []) :
    ∃ digits, encode digits = line.takeWhile isHexOctet ∧
      IsNumeral 16 (Text.ofDigits 16 (Text.decodeLossy (line.takeWhile isHexOctet))) digits := by
  have hhex : ∀ b ∈ line.takeWhile isHexOctet, isHexOctet b = true := fun b => List.mem_takeWhile_imp
  have hascii : ∀ b ∈ line.takeWhile isHexOctet, b < 0x80 := by
    intro b hb
    have hlow := Text.toNat_lt_of_isDigitIn (hhex b hb)
    rw [UInt8.lt_iff_toNat_lt]
    rwa [← Text.toNat_asciiChar]
  refine ⟨_, Text.encode_decodeLossy hascii, h, fun c hc => ?_, rfl⟩
  rw [Text.decodeLossy_of_ascii hascii] at hc
  obtain ⟨b, hb, rfl⟩ := List.mem_map.1 hc
  exact hhex b hb

/-- A size and the blanks after it are taken from a line, up to the extension. -/
theorem readSize?_append (hdigits : IsNumeral 16 size digits) (hlimit : size < sizeLimit)
    {blanks : Octets} (hblanks : ∀ b ∈ blanks, isGap b = true)
    (hrest : ∀ b ∈ rest.head?, isGap b = false ∧ isHexOctet b = false) :
    readSize? (encode digits ++ (blanks ++ rest)) = (extensionLength? rest).map (size, ·) := by
  have hhex := isHexOctet_of_mem hdigits
  have hnext : ∀ b ∈ (blanks ++ rest).head?, isHexOctet b = false := by
    intro b hb
    cases blanks with
    | nil => exact (hrest b hb).2
    | cons gap blanks =>
      cases hb
      exact isHexOctet_of_isGap (hblanks _ List.mem_cons_self)
  have hsome : ¬(digits.isEmpty = true ∨ sizeLimit ≤ size) := by
    simp [hdigits.ne_nil, hlimit]
  unfold readSize?
  simp only [Text.takeWhile_append_of_head? hhex hnext, Text.dropWhile_append_of_head? hhex hnext,
    Text.dropWhile_append_of_head? hblanks fun b hb => (hrest b hb).1, Text.decodeLossy_encode,
    hdigits.value, if_neg hsome]

theorem readSize?_eq_some_iff (hline : 0x0D ∉ line) :
    readSize? line = some (size, extension) ↔ size < sizeLimit ∧ SizeLine size extension line := by
  constructor
  · intro h
    have hparts : line.takeWhile isHexOctet ++ ((line.dropWhile isHexOctet).takeWhile isGap ++
        (line.dropWhile isHexOctet).dropWhile isGap) = line := by
      rw [List.takeWhile_append_dropWhile, List.takeWhile_append_dropWhile]
    have hreturn : 0x0D ∉ (line.dropWhile isHexOctet).dropWhile isGap := fun hmem =>
      hline ((List.dropWhile_suffix _).mem ((List.dropWhile_suffix _).mem hmem))
    unfold readSize? at h
    simp only at h
    split at h
    next => cases h
    next hsome =>
      rw [not_or, Nat.not_le, List.isEmpty_iff] at hsome
      obtain ⟨digits, hencode, hdigits⟩ := exists_isNumeral hsome.1
      obtain ⟨length, hlength, heq⟩ := Option.map_eq_some_iff.1 h
      cases heq
      refine ⟨hsome.2, ?_⟩
      have hblanks : ∀ b ∈ (line.dropWhile isHexOctet).takeWhile isGap, isGap b = true :=
        fun b => List.mem_takeWhile_imp
      have hsize := SizeLine.intro hdigits hblanks ((extensionLength?_eq_some_iff hreturn).1 hlength)
      rwa [hencode, hparts] at hsize
  · rintro ⟨hlimit, @⟨digits, blanks, octets, hdigits, hblanks, hextension⟩⟩
    have hrest : ∀ b ∈ octets.head?, isGap b = false ∧ isHexOctet b = false := by
      cases hextension with
      | none => nofun
      | some => simpa using by decide
    rw [readSize?_append hdigits hlimit hblanks hrest,
      (extensionLength?_eq_some_iff hextension.not_mem).2 hextension, Option.map_some]

/-! ## Chunks -/

/-- Octets as they are written in chunks, with a number of octets in extensions. -/
inductive Chunked : Nat → Octets → Octets → Prop
  | last {extension : Nat} {line trailers : Octets} (hline : SizeLine 0 extension line)
    (htrailers : Trailers trailers) : Chunked extension [] (line ++ (lineEnd ++ trailers))
  | chunk {extension more : Nat} {line data content written : Octets} (hdata : data ≠ [])
    (hsize : data.length < sizeLimit) (hline : SizeLine data.length extension line)
    (hrest : Chunked more content written) :
    Chunked (extension + more) (data ++ content)
      (line ++ (lineEnd ++ (data ++ (lineEnd ++ written))))

/-- A chunk is read in front, which is the last one or has others behind it. -/
theorem readChunks?_step :
    readChunks? room octets = some content ↔ ∃ line rest size extension,
      readLine? octets = some (line, rest) ∧ readSize? line = some (size, extension) ∧
        extension ≤ room ∧
          (size = 0 ∧ hasTrailers rest = true ∧ content = [] ∨
            size ≠ 0 ∧ ∃ left more, afterLineEnd? (rest.drop size) = some left ∧
              readChunks? (room - extension) left = some more ∧ rest.take size ++ more = content) := by
  constructor
  · intro h
    rw [readChunks?] at h
    split at h
    next => cases h
    next line rest hread =>
      split at h
      next => cases h
      next size extension hsize =>
        split at h
        next => cases h
        next hroom =>
          rw [Nat.not_lt] at hroom
          refine ⟨line, rest, size, extension, hread, hsize, hroom, ?_⟩
          split at h
          next hzero =>
            split at h
            next htrailers =>
              cases h
              exact .inl ⟨hzero, htrailers, rfl⟩
            next => cases h
          next hsome =>
            split at h
            next => cases h
            next left hleft =>
              obtain ⟨more, hmore, heq⟩ := Option.map_eq_some_iff.1 h
              exact .inr ⟨hsome, left, more, hleft, hmore, heq⟩
  · rintro ⟨line, rest, size, extension, hread, hsize, hroom, hcases⟩
    rw [readChunks?]
    split
    next hnone => rw [hread] at hnone; cases hnone
    next heq =>
      rw [hread] at heq
      cases heq
      simp only [hsize, if_neg (Nat.not_lt.2 hroom)]
      rcases hcases with ⟨rfl, htrailers, rfl⟩ | ⟨hsome, left, more, hleft, hmore, rfl⟩
      · rw [if_pos rfl, if_pos htrailers]
      · rw [if_neg hsome]
        split
        next hnone => rw [hleft] at hnone; cases hnone
        next heq =>
          rw [hleft] at heq
          cases heq
          rw [hmore, Option.map_some]

theorem exists_chunked {room : Nat} {octets content : Octets}
    (h : readChunks? room octets = some content) :
    ∃ extensions written rest,
      Chunked extensions content written ∧ extensions ≤ room ∧ octets = written ++ rest := by
  obtain ⟨line, rest, size, extension, hread, hsize, hroom, hcases⟩ := readChunks?_step.1 h
  obtain ⟨hoctets, hreturn⟩ := readLine?_eq_some_iff.1 hread
  obtain ⟨hlimit, hline⟩ := (readSize?_eq_some_iff hreturn).1 hsize
  rcases hcases with ⟨rfl, hend, rfl⟩ | ⟨hsome, left, more, hleft, hmore, rfl⟩
  · obtain ⟨trailers, after, htrailers, rfl⟩ := hasTrailers_iff.1 hend
    exact ⟨extension, _, after, .last hline htrailers, hroom, by simp [hoctets]⟩
  · have hshorter := length_of_afterLineEnd? hleft
    rw [List.length_drop] at hshorter
    have : left.length < octets.length := by
      have := length_of_readLine? hread
      omega
    obtain ⟨extensions, written, after, hchunked, hle, rfl⟩ := exists_chunked hmore
    have hdata : (rest.take size).length = size := by
      rw [List.length_take]
      omega
    have hrest : rest.take size ++ (lineEnd ++ (written ++ after)) = rest := by
      rw [← afterLineEnd?_eq_some_iff.1 hleft, List.take_append_drop]
    generalize rest.take size = data at hdata hrest ⊢
    obtain rfl := hrest
    obtain rfl := hdata
    have hchunk := Chunked.chunk (List.length_pos_iff.1 (Nat.pos_of_ne_zero hsome)) hlimit hline hchunked
    exact ⟨extension + extensions, _, after, hchunk, by omega, by simp [hoctets]⟩
termination_by octets.length

/-- Octets are read from chunks just if they are written so, whatever comes after them. -/
theorem readChunks?_eq_some_iff :
    readChunks? room octets = some content ↔ ∃ extensions written rest,
      Chunked extensions content written ∧ extensions ≤ room ∧ octets = written ++ rest := by
  refine ⟨exists_chunked, ?_⟩
  rintro ⟨extensions, written, rest, hchunked, hroom, rfl⟩
  induction hchunked generalizing room with
  | @last extension line trailers hline htrailers =>
    have hread : readLine? (line ++ (lineEnd ++ trailers) ++ rest) = some (line, trailers ++ rest) :=
      readLine?_eq_some_iff.2 ⟨by simp, hline.not_mem⟩
    have hsize := (readSize?_eq_some_iff hline.not_mem).2 ⟨by decide, hline⟩
    exact readChunks?_step.2 ⟨line, _, 0, extension, hread, hsize, hroom,
      .inl ⟨rfl, hasTrailers_iff.2 ⟨trailers, rest, htrailers, rfl⟩, rfl⟩⟩
  | @chunk extension more line data content written hdata hlimit hline _ ih =>
    have hread : readLine? (line ++ (lineEnd ++ (data ++ (lineEnd ++ written))) ++ rest) =
        some (line, data ++ (lineEnd ++ (written ++ rest))) :=
      readLine?_eq_some_iff.2 ⟨by simp, hline.not_mem⟩
    have hsize := (readSize?_eq_some_iff hline.not_mem).2 ⟨hlimit, hline⟩
    have hleft : afterLineEnd? ((data ++ (lineEnd ++ (written ++ rest))).drop data.length) =
        some (written ++ rest) := afterLineEnd?_eq_some_iff.2 (by simp)
    exact readChunks?_step.2 ⟨line, _, data.length, extension, hread, hsize, by omega,
      .inr ⟨by simpa using hdata, _, content, hleft, ih (by omega), by simp⟩⟩

end ActionBook.Http
