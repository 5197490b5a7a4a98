import ActionBook.Proofs.Text.Decoding

/-!
# `Text.Replacing`: what is read of octets that are no text

Octets are read as a text just if they are its encoding (`decode?_eq_some_iff`). Of any other octets,
the characters are kept that are encoded in them, and what belongs to none is replaced: a stretch as
long as it can be that a character might start with, or else a single octet (`Stray`). `Replaces` says
this without the decoder, and there is one text only that it says this of (`replaces_iff`).
-/

namespace ActionBook.Text

open String (utf8EncodeChar)

variable {o rest left tail more bad : Octets} {text : List Char} {c : Char}
  {first low high : UInt8} {owed value : Nat}

/-! ## Octets after the first -/

/-- The octets are within the bounds of the octets after the first one of a character, with bounds of
its own for the second. -/
def Continue (low high : UInt8) : Octets → Prop
  | [] => True
  | b :: rest => low.toNat ≤ b.toNat ∧ b.toNat ≤ high.toNat ∧ Continue 0x80 0xBF rest

/-- The number of a character whose first octets stand for `value`. -/
def tailValue (value : Nat) (tail : Octets) : Nat :=
  tail.foldl (fun value b => value * 64 + (b.toNat - 0x80)) value

theorem Continue.of_append (h : Continue low high (tail ++ more)) : Continue low high tail := by
  induction tail generalizing low high with
  | nil => exact trivial
  | cons b tail ih => exact ⟨h.1, h.2.1, ih h.2.2⟩

theorem continue_replicate (count : Nat) : Continue 0x80 0xBF (List.replicate count 0x80) := by
  induction count with
  | zero => exact trivial
  | succ count ih => exact ⟨by decide, by decide, ih⟩

/-- There are always octets that complete a character. -/
theorem Continue.exists_append (h : Continue low high tail) (hbounds : low.toNat ≤ high.toNat)
    (hlength : tail.length ≤ owed) :
    ∃ more, Continue low high (tail ++ more) ∧ (tail ++ more).length = owed := by
  induction tail generalizing low high owed with
  | nil =>
    cases owed with
    | zero => exact ⟨[], trivial, rfl⟩
    | succ owed =>
      refine ⟨low :: List.replicate owed 0x80, ⟨Nat.le_refl _, hbounds, continue_replicate owed⟩, ?_⟩
      rw [List.nil_append, List.length_cons, List.length_replicate]
  | cons b tail ih =>
    obtain ⟨owed, rfl⟩ : ∃ n, owed = n + 1 :=
      ⟨owed - 1, by rw [List.length_cons] at hlength; omega⟩
    obtain ⟨more, hmore, htotal⟩ := ih h.2.2 (by decide) (Nat.le_of_succ_le_succ hlength)
    exact ⟨more, ⟨h.1, h.2.1, hmore⟩, congrArg (· + 1) htotal⟩

/-- Some octets have as many at their front as a character still has, or are within its bounds no
longer. -/
theorem exists_continue (low high : UInt8) (owed : Nat) (rest : Octets) :
    ∃ tail left, rest = tail ++ left ∧ Continue low high tail ∧ (tail.length = owed ∨
      tail.length < owed ∧ ∀ b more, left = b :: more → ¬ Continue low high (tail ++ [b])) := by
  induction owed generalizing low high rest with
  | zero => exact ⟨[], rest, rfl, trivial, .inl rfl⟩
  | succ owed ih =>
    cases rest with
    | nil => exact ⟨[], [], rfl, trivial, .inr ⟨Nat.zero_lt_succ _, nofun⟩⟩
    | cons b rest =>
      by_cases hb : low.toNat ≤ b.toNat ∧ b.toNat ≤ high.toNat
      · obtain ⟨tail, left, rfl, htail, hlength⟩ := ih 0x80 0xBF rest
        refine ⟨b :: tail, left, rfl, ⟨hb.1, hb.2, htail⟩, ?_⟩
        rcases hlength with rfl | ⟨hlt, hnext⟩
        · exact .inl rfl
        · exact .inr ⟨Nat.succ_lt_succ hlt, fun b' more h hcontinue => hnext b' more h hcontinue.2.2⟩
      · refine ⟨[], b :: rest, rfl, trivial, .inr ⟨Nat.zero_lt_succ _, ?_⟩⟩
        rintro b' more ⟨⟩ ⟨hlow, hhigh, -⟩
        exact hb ⟨hlow, hhigh⟩

/-- All octets of a character are read. -/
theorem readTail_append (h : Continue low high tail) (value : Nat) (left : Octets) :
    readTail low high tail.length value (tail ++ left) =
      .character (Char.ofNat (tailValue value tail)) left := by
  induction tail generalizing low high value with
  | nil => rw [List.length_nil, List.nil_append, readTail, tailValue, List.foldl_nil]
  | cons b tail ih =>
    obtain ⟨hlow, hhigh, htail⟩ := h
    have hbounds : (low ≤ b && b ≤ high) = true := by
      simp only [UInt8.le_iff_toNat_le, hlow, hhigh, decide_true, Bool.and_self]
    rw [List.length_cons, List.cons_append, readTail, if_pos hbounds, ih htail, tailValue, tailValue,
      List.foldl_cons]

/-- Reading stops before the first octet that is not within its bounds. -/
theorem readTail_eq_invalid (h : Continue low high tail) (hlength : tail.length < owed)
    (hnext : ∀ b more, left = b :: more → ¬ Continue low high (tail ++ [b])) (value : Nat) :
    readTail low high owed value (tail ++ left) = .invalid left := by
  induction tail generalizing low high owed value with
  | nil =>
    obtain ⟨owed, rfl⟩ : ∃ n, owed = n + 1 := ⟨owed - 1, by omega⟩
    cases left with
    | nil => rfl
    | cons b more =>
      have hbounds : ¬ (low ≤ b && b ≤ high) = true := by
        intro hb
        simp only [Bool.and_eq_true, decide_eq_true_eq, UInt8.le_iff_toNat_le] at hb
        exact hnext b more rfl ⟨hb.1, hb.2, trivial⟩
      rw [List.nil_append, readTail, if_neg hbounds]
  | cons b tail ih =>
    obtain ⟨owed, rfl⟩ : ∃ n, owed = n + 1 := ⟨owed - 1, by omega⟩
    obtain ⟨hlow, hhigh, htail⟩ := h
    have hbounds : (low ≤ b && b ≤ high) = true := by
      simp only [UInt8.le_iff_toNat_le, hlow, hhigh, decide_true, Bool.and_self]
    rw [List.cons_append, readTail, if_pos hbounds]
    refine ih htail (Nat.lt_of_succ_lt_succ hlength) (fun b' more hleft hcontinue => ?_) _
    exact hnext b' more hleft ⟨hlow, hhigh, hcontinue⟩

/-! ## First octets -/

/-- What follows a first octet keeps overlong forms, surrogates and what is beyond U+10FFFF out. -/
theorem of_tailShape (h : tailShape first = some (low, high, owed)) :
    0x80 ≤ low.toNat ∧ low.toNat ≤ high.toNat ∧ high.toNat ≤ 0xBF ∧
      (owed = 1 ∧ 0xC2 ≤ first.toNat ∧ first.toNat ≤ 0xDF ∨
        owed = 2 ∧ 0xE0 ≤ first.toNat ∧ first.toNat ≤ 0xEF ∧
          (first.toNat = 0xE0 → 0xA0 ≤ low.toNat) ∧ (first.toNat = 0xED → high.toNat ≤ 0x9F) ∨
        owed = 3 ∧ 0xF0 ≤ first.toNat ∧ first.toNat ≤ 0xF4 ∧
          (first.toNat = 0xF0 → 0x90 ≤ low.toNat) ∧ (first.toNat = 0xF4 → high.toNat ≤ 0x8F)) := by
  unfold tailShape at h
  simp only [Bool.and_eq_true, decide_eq_true_eq, beq_iff_eq, UInt8.le_iff_toNat_le] at h
  repeat' split at h
  all_goals cases h
  all_goals try subst first
  all_goals simp only [UInt8.reduceToNat] at *
  all_goals grind

theorem not_lt_of_tailShape (h : tailShape first = some (low, high, owed)) : ¬ first < 0x80 := by
  have hfirst := (of_tailShape h).2.2.2
  rw [UInt8.lt_iff_toNat_lt]
  show ¬ first.toNat < 0x80
  omega

theorem toNat_ofNat {n : Nat} (h : n < 0xD800 ∨ 0xDFFF < n ∧ n < 0x110000) :
    (Char.ofNat n).val.toNat = n := by
  rw [Char.ofNat, dif_pos h]
  rfl

/-- Octets within their bounds are the octets of the character they are read as. -/
theorem utf8EncodeChar_ofNat (h : tailShape first = some (low, high, owed))
    (htail : Continue low high tail) (hlength : tail.length = owed) :
    utf8EncodeChar (Char.ofNat (tailValue (leadBits first owed) tail)) = first :: tail := by
  obtain ⟨hlow, -, hhigh, hfirst⟩ := of_tailShape h
  have hback {n : Nat} {a : UInt8} (ha : n = a.toNat) : UInt8.ofNat n = a := by
    rw [ha, UInt8.ofNat_toNat]
  -- by the number of octets that follow
  rcases hfirst with ⟨rfl, hfirst⟩ | ⟨rfl, hfirst⟩ | ⟨rfl, hfirst⟩
  · obtain ⟨a, rfl⟩ := List.length_eq_one_iff.1 hlength
    simp only [Continue] at htail
    have hvalue : tailValue (leadBits first 1) [a] = (first.toNat - 0xC0) * 64 + (a.toNat - 0x80) := rfl
    rw [hvalue, utf8EncodeChar, toNat_ofNat (by omega), if_neg (by omega), if_pos (by omega),
      hback (a := first) (by omega), hback (a := a) (by omega)]
  · obtain ⟨a, b, rfl⟩ := List.length_eq_two.1 hlength
    simp only [Continue, UInt8.reduceToNat] at htail
    have hvalue : tailValue (leadBits first 2) [a, b] =
        ((first.toNat - 0xE0) * 64 + (a.toNat - 0x80)) * 64 + (b.toNat - 0x80) := rfl
    rw [hvalue, utf8EncodeChar, toNat_ofNat (by omega), if_neg (by omega), if_neg (by omega),
      if_pos (by omega), hback (a := first) (by omega), hback (a := a) (by omega),
      hback (a := b) (by omega)]
  · obtain ⟨a, b, d, rfl⟩ := List.length_eq_three.1 hlength
    simp only [Continue, UInt8.reduceToNat] at htail
    have hvalue : tailValue (leadBits first 3) [a, b, d] =
        (((first.toNat - 0xF0) * 64 + (a.toNat - 0x80)) * 64 + (b.toNat - 0x80)) * 64 +
          (d.toNat - 0x80) := rfl
    rw [hvalue, utf8EncodeChar, toNat_ofNat (by omega), if_neg (by omega), if_neg (by omega),
      if_neg (by omega), hback (a := first) (by omega), hback (a := a) (by omega),
      hback (a := b) (by omega), hback (a := d) (by omega)]

/-! ## Fronts -/

/-- What is read as a character is its octets. -/
theorem eq_append_of_front (h : front first rest = .character c left) :
    first :: rest = utf8EncodeChar c ++ left := by
  rw [front] at h
  split at h
  next hlow =>
    cases h
    have hsmall : first.toNat < 0x80 := UInt8.lt_iff_toNat_lt.1 hlow
    rw [utf8EncodeChar, toNat_ofNat (by omega), if_pos (by omega), UInt8.ofNat_toNat]
    rfl
  next =>
    split at h
    · cases h
    next low high owed hshape =>
      obtain ⟨tail, left', rfl, htail, hlength⟩ := exists_continue low high owed rest
      rcases hlength with rfl | ⟨hlt, hnext⟩
      · rw [readTail_append htail] at h
        cases h
        rw [utf8EncodeChar_ofNat hshape htail rfl, List.cons_append]
      · rw [readTail_eq_invalid htail hlt hnext] at h
        cases h

theorem front_of_isPrefix (h : utf8EncodeChar c ++ left = first :: rest) :
    front first rest = .character c left := by
  obtain ⟨first', tail, hc, hfront⟩ := front_utf8EncodeChar c
  rw [hc, List.cons_append] at h
  cases h
  exact hfront left

/-- A character might start with the octets. -/
def Starts (o : Octets) : Prop := ∃ c, o <+: utf8EncodeChar c

theorem starts_of_continue (h : tailShape first = some (low, high, owed))
    (htail : Continue low high tail) (hlength : tail.length ≤ owed) : Starts (first :: tail) := by
  obtain ⟨more, hmore, htotal⟩ := htail.exists_append (of_tailShape h).2.1 hlength
  exact ⟨_, more, (utf8EncodeChar_ofNat h hmore htotal).symm⟩

/-- A character that might start with some octets is read of them with others behind. -/
theorem Starts.exists_front (h : Starts (first :: tail)) :
    ∃ c more, front first (tail ++ more) = .character c [] := by
  obtain ⟨c, more, hc⟩ := h
  exact ⟨c, more, front_of_isPrefix (by rw [List.append_nil, ← hc, List.cons_append])⟩

theorem Starts.continue (h : Starts (first :: tail)) (hshape : tailShape first = some (low, high, owed)) :
    Continue low high tail := by
  obtain ⟨c, more, hfront⟩ := h.exists_front
  rw [front, if_neg (not_lt_of_tailShape hshape), hshape] at hfront
  simp only at hfront
  obtain ⟨tail', left, heq, htail', hlength⟩ := exists_continue low high owed (tail ++ more)
  rw [heq] at hfront
  rcases hlength with rfl | ⟨hlt, hnext⟩
  · rw [readTail_append htail'] at hfront
    cases hfront
    rw [List.append_nil] at heq
    exact (heq ▸ htail').of_append
  · rw [readTail_eq_invalid htail' hlt hnext] at hfront
    cases hfront

/-! ## Stretches without characters -/

/-- The octets belong to no character, and are the longest stretch in front of `rest` that is replaced
as a whole. -/
structure Stray (bad rest : Octets) : Prop where
  ne_nil : bad ≠ []
  /-- No character is encoded at the front. -/
  none : ∀ c, ¬ utf8EncodeChar c <+: bad ++ rest
  shape : bad.length = 1 ∨ Starts bad
  longest : ∀ b more, rest = b :: more → ¬ Starts (bad ++ [b])

theorem stray_of_front (h : front first rest = .invalid left) :
    ∃ bad, first :: rest = bad ++ left ∧ Stray bad left := by
  have hnone : ∀ c, ¬ utf8EncodeChar c <+: first :: rest := by
    rintro c ⟨more, hc⟩
    rw [front_of_isPrefix hc] at h
    cases h
  rw [front] at h
  split at h
  · cases h
  next hlow =>
    split at h
    next hshape =>
      cases h
      refine ⟨[first], rfl, List.cons_ne_nil _ _, hnone, .inl rfl, fun b more _ hstarts => ?_⟩
      obtain ⟨c, more', hfront⟩ := hstarts.exists_front
      rw [front, if_neg hlow, hshape] at hfront
      cases hfront
    next low high owed hshape =>
      obtain ⟨tail, left', rfl, htail, hlength⟩ := exists_continue low high owed rest
      rcases hlength with rfl | ⟨hlt, hnext⟩
      · rw [readTail_append htail] at h
        cases h
      · rw [readTail_eq_invalid htail hlt hnext] at h
        cases h
        refine ⟨first :: tail, rfl, List.cons_ne_nil _ _, hnone,
          .inr (starts_of_continue hshape htail (Nat.le_of_lt hlt)), fun b more hleft hstarts => ?_⟩
        exact hnext b more hleft (hstarts.continue hshape)

/-- Of two stretches, neither is shorter than the other. -/
theorem Stray.length_le {other rest' : Octets} (h : Stray bad rest) (h' : Stray other rest')
    (heq : bad ++ rest = other ++ rest') : other.length ≤ bad.length := by
  by_contra hlt
  obtain ⟨extra, rfl⟩ : bad <+: other :=
    List.prefix_of_prefix_length_le ⟨rest, heq⟩ ⟨rest', rfl⟩ (by omega)
  rw [List.append_assoc, List.append_cancel_left_eq] at heq
  cases extra with
  | nil => exact hlt (Nat.le_of_eq (congrArg List.length (List.append_nil bad)))
  | cons b extra =>
    have hbad : bad.length ≠ 0 := fun hzero => h.ne_nil (List.length_eq_zero_iff.1 hzero)
    rcases h'.shape with hone | ⟨c, hc⟩
    · rw [List.length_append, List.length_cons] at hone
      omega
    · refine h.longest b _ heq ⟨c, List.IsPrefix.trans ⟨extra, ?_⟩ hc⟩
      rw [List.append_assoc, List.singleton_append]

/-! ## Whole texts -/

/-- Octets with the text that is read of them: their characters, and one replacement for each stretch
that belongs to none. -/
inductive Replaces : Octets → List Char → Prop
  | nil : Replaces [] []
  | character (c : Char) {rest : Octets} {text : List Char} (h : Replaces rest text) :
    Replaces (utf8EncodeChar c ++ rest) (c :: text)
  | stray {bad rest : Octets} {text : List Char} (hbad : Stray bad rest) (h : Replaces rest text) :
    Replaces (bad ++ rest) ('\uFFFD' :: text)

/-- The character of an octet below 0x80. -/
def asciiChar (b : UInt8) : Char := Char.ofNat b.toNat

theorem toNat_asciiChar (b : UInt8) : (asciiChar b).toNat = b.toNat :=
  toNat_ofNat (.inl (Nat.lt_trans b.toNat_lt (by decide)))

theorem asciiChar_injective : Function.Injective asciiChar := by
  intro b b' h
  rw [← UInt8.toNat_inj, ← toNat_asciiChar, ← toNat_asciiChar, h]

/-- The octets of a text of characters below 0x80 are those of its characters. -/
theorem of_mem_encode {b : UInt8} (h : ∀ c ∈ text, c.toNat < 0x80) (hb : b ∈ encode text) :
    asciiChar b ∈ text ∧ b < 0x80 := by
  rw [encode_of_ascii h, List.mem_map] at hb
  obtain ⟨c, hc, rfl⟩ := hb
  have hnumber : (UInt8.ofNat c.toNat).toNat = c.toNat := by
    rw [UInt8.toNat_ofNat']
    exact Nat.mod_eq_of_lt (Nat.lt_trans (h c hc) (by decide))
  refine ⟨?_, ?_⟩
  · rwa [asciiChar, hnumber, Char.ofNat_toNat]
  · rw [UInt8.lt_iff_toNat_lt, hnumber]
    exact h c hc

/-- Octets below 0x80 are characters of their own. -/
theorem decodeLossy_of_ascii (h : ∀ b ∈ o, b < 0x80) : decodeLossy o = o.map asciiChar := by
  induction o with
  | nil => rw [decodeLossy, List.map_nil]
  | cons b rest ih =>
    obtain ⟨hb, hrest⟩ := List.forall_mem_cons.1 h
    have hfront : front b rest = .character (asciiChar b) rest := if_pos hb
    rw [decodeLossy_of_character hfront, ih hrest, List.map_cons]

/-- What is read of octets below 0x80 is encoded by them. -/
theorem encode_decodeLossy (h : ∀ b ∈ o, b < 0x80) : encode (decodeLossy o) = o := by
  rw [decodeLossy_of_ascii h]
  induction o with
  | nil => rfl
  | cons b rest ih =>
    obtain ⟨hb, hrest⟩ := List.forall_mem_cons.1 h
    have hchar : utf8EncodeChar (asciiChar b) = [b] := by
      have hfront : front b [] = .character (asciiChar b) [] := if_pos hb
      simpa using (eq_append_of_front hfront).symm
    have hmore : (rest.map asciiChar).flatMap utf8EncodeChar = rest := ih hrest
    rw [List.map_cons, encode, List.flatMap_cons, hchar, hmore, List.singleton_append]

theorem replaces_decodeLossy (o : Octets) : Replaces o (decodeLossy o) := by
  induction o using decodeLossy.induct with
  | case1 =>
    rw [decodeLossy]
    exact .nil
  | case2 first rest c left hfront _ ih =>
    rw [decodeLossy_of_character hfront, eq_append_of_front hfront]
    exact .character c ih
  | case3 first rest left hfront _ ih =>
    obtain ⟨bad, heq, hbad⟩ := stray_of_front hfront
    rw [decodeLossy_of_invalid hfront, heq]
    exact .stray hbad ih

theorem Replaces.eq_decodeLossy (h : Replaces o text) : text = decodeLossy o := by
  induction h with
  | nil => rw [decodeLossy]
  | @character c rest text _ ih =>
    obtain ⟨first, tail, hc, hfront⟩ := front_utf8EncodeChar c
    rw [hc, List.cons_append, decodeLossy_of_character (hfront rest), ih]
  | @stray bad rest text hbad _ ih =>
    obtain ⟨first, tail, rfl⟩ := List.exists_cons_of_ne_nil hbad.ne_nil
    rw [List.cons_append]
    cases hfront : front first (tail ++ rest) with
    | character c left =>
      refine absurd ⟨left, ?_⟩ (hbad.none c)
      rw [← eq_append_of_front hfront, List.cons_append]
    | invalid left =>
      obtain ⟨other, heq, hother⟩ := stray_of_front hfront
      rw [← List.cons_append] at heq
      have hlength := Nat.le_antisymm (hother.length_le hbad heq.symm) (hbad.length_le hother heq)
      rw [decodeLossy_of_invalid hfront, ← (List.append_inj heq hlength).2, ih]

/-- One text is read of any octets. -/
theorem replaces_iff : Replaces o text ↔ text = decodeLossy o :=
  ⟨Replaces.eq_decodeLossy, fun h => h ▸ replaces_decodeLossy o⟩

/-- Octets are read as a text without replacements just if they are its encoding. -/
theorem decode?_eq_some_iff : decode? o = some text ↔ o = encode text := by
  constructor
  · intro h
    induction o using decode?.induct generalizing text with
    | case1 =>
      rw [decode?] at h
      cases h
      rfl
    | case2 first rest c left hfront _ ih =>
      rw [decode?_of_character hfront] at h
      obtain ⟨text, htext, rfl⟩ := Option.map_eq_some_iff.1 h
      rw [eq_append_of_front hfront, encode, List.flatMap_cons, ih htext]
      rfl
    | case3 first rest left hfront =>
      rw [decode?_of_invalid hfront] at h
      cases h
  · rintro rfl
    induction text with
    | nil => rw [encode, List.flatMap_nil, decode?]
    | cons c text ih =>
      obtain ⟨first, rest, hencode, hfront⟩ := exists_encode_cons c text
      rw [hencode, decode?_of_character hfront, ih, Option.map_some]

end ActionBook.Text
