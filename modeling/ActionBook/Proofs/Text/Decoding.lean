import ActionBook.Text.Utf8
import Mathlib.Data.List.Basic

/-!
# `Text.Decoding`: octets as the characters they are

An octet below 0x80 is a whole character, and none of the octets of a longer one is below that. So such
an octet comes out of decoding as its character, whatever stands around it (`mem_of_decode?_eq_some`).
The octets of any character are read as this character, whatever follows them (`front_utf8EncodeChar`),
so a text comes back from its octets (`decodeLossy_encode`).
-/

namespace ActionBook.Text

variable {text : List Char} {octets rest left : Octets} {c : Char} {b first : UInt8}

/-! ## One character at a time -/

theorem decode?_of_character (h : front first rest = .character c left) :
    decode? (first :: rest) = (decode? left).map (c :: ·) := by
  rw [decode?]
  split
  next hread => rw [h] at hread; cases hread; rfl
  next hread => rw [h] at hread; cases hread

theorem decode?_of_invalid (h : front first rest = .invalid left) :
    decode? (first :: rest) = none := by
  rw [decode?]
  split
  next hread => rw [h] at hread; cases hread
  next => rfl

theorem decodeLossy_of_character (h : front first rest = .character c left) :
    decodeLossy (first :: rest) = c :: decodeLossy left := by
  rw [decodeLossy]
  split
  next hread => rw [h] at hread; cases hread; rfl
  next hread => rw [h] at hread; cases hread

theorem decodeLossy_of_invalid (h : front first rest = .invalid left) :
    decodeLossy (first :: rest) = '\uFFFD' :: decodeLossy left := by
  rw [decodeLossy]
  split
  next hread => rw [h] at hread; cases hread
  next hread => rw [h] at hread; cases hread; rfl

/-! ## Octets below 0x80 -/

theorem mem_encode_of_lt (hc : c ∈ text) (h : c.toNat < 0x80) : UInt8.ofNat c.toNat ∈ encode text := by
  have hsmall : c.val.toNat ≤ 127 := Nat.le_of_lt_succ h
  refine List.mem_flatMap.2 ⟨c, hc, ?_⟩
  show _ ∈ if c.val.toNat ≤ 127 then [UInt8.ofNat c.val.toNat] else _
  rw [if_pos hsmall]
  exact List.mem_singleton_self _

/-- A text of characters below 0x80 has their numbers for octets. -/
theorem encode_of_ascii (h : ∀ c ∈ text, c.toNat < 0x80) :
    encode text = text.map fun c => UInt8.ofNat c.toNat := by
  induction text with
  | nil => rfl
  | cons c text ih =>
    obtain ⟨hc, htext⟩ := List.forall_mem_cons.1 h
    have hchar : String.utf8EncodeChar c = [UInt8.ofNat c.toNat] := if_pos (Nat.le_of_lt_succ hc)
    have hmore : text.flatMap String.utf8EncodeChar = text.map fun c => UInt8.ofNat c.toNat := ih htext
    rw [encode, List.flatMap_cons, hchar, hmore, List.map_cons, List.singleton_append]

/-- The octets of a longer character after its first are not below 0x80. -/
theorem exists_tail_of_readTail {low high : UInt8} {owed value : Nat} {rest left : Octets}
    (hlow : 0x80 ≤ low) (h : readTail low high owed value rest = .character c left) :
    ∃ tail, rest = tail ++ left ∧ ∀ b ∈ tail, 0x80 ≤ b := by
  induction owed generalizing low high value rest with
  | zero =>
    rw [readTail] at h
    cases h
    exact ⟨[], rfl, by simp⟩
  | succ owed ih =>
    cases rest with
    | nil => cases h
    | cons b rest =>
      rw [readTail] at h
      split at h
      next hbounds =>
        rw [Bool.and_eq_true, decide_eq_true_eq] at hbounds
        obtain ⟨tail, rfl, htail⟩ := ih (by decide) h
        refine ⟨b :: tail, rfl, List.forall_mem_cons.2 ⟨?_, htail⟩⟩
        exact UInt8.le_trans hlow hbounds.1
      next => cases h

theorem le_of_tailShape {first low high : UInt8} {owed : Nat}
    (h : tailShape first = some (low, high, owed)) : 0x80 ≤ low := by
  unfold tailShape at h
  repeat' split at h
  all_goals cases h <;> decide

/-- An octet below 0x80 is the first character that is read, or comes after it. -/
theorem eq_or_mem_of_front (h : front first rest = .character c left)
    (hb : b ∈ first :: rest) (hlow : b < 0x80) : c = Char.ofNat b.toNat ∨ b ∈ left := by
  rw [front] at h
  split at h
  next =>
    cases h
    rcases List.mem_cons.1 hb with rfl | hb
    · exact .inl rfl
    · exact .inr hb
  next hfirst =>
    split at h
    · cases h
    next low high owed hshape =>
      obtain ⟨tail, rfl, htail⟩ := exists_tail_of_readTail (le_of_tailShape hshape) h
      rcases List.mem_cons.1 hb with rfl | hb
      · exact absurd hlow hfirst
      · rcases List.mem_append.1 hb with hb | hb
        · exact absurd hlow (UInt8.not_lt.2 (htail b hb))
        · exact .inr hb

theorem mem_of_decode?_eq_some (h : decode? octets = some text) (hb : b ∈ octets) (hlow : b < 0x80) :
    Char.ofNat b.toNat ∈ text := by
  -- by the characters that are read one after the other
  induction octets using decode?.induct generalizing text with
  | case1 => cases hb
  | case2 first rest c left hfront _ ih =>
    rw [decode?_of_character hfront] at h
    obtain ⟨text, hdecode, rfl⟩ := Option.map_eq_some_iff.1 h
    rcases eq_or_mem_of_front hfront hb hlow with rfl | hleft
    · exact List.mem_cons_self
    · exact List.mem_cons_of_mem _ (ih hdecode hleft)
  | case3 first rest left hfront =>
    rw [decode?_of_invalid hfront] at h
    cases h

/-! ## Characters that have been encoded -/

/-- The octet of six more bits of a character is read as these bits. -/
theorem readTail_ofNat {low high : UInt8} {owed value bits : Nat} (hbits : bits < 64)
    (hlow : low.toNat ≤ bits + 128) (hhigh : bits + 128 ≤ high.toNat) (rest : Octets) :
    readTail low high (owed + 1) value (UInt8.ofNat (bits + 128) :: rest) =
      readTail 0x80 0xBF owed (value * 64 + bits) rest := by
  have hoctet : (UInt8.ofNat (bits + 128)).toNat = bits + 128 := by
    rw [UInt8.toNat_ofNat']
    omega
  have hbounds : (low ≤ UInt8.ofNat (bits + 128) && UInt8.ofNat (bits + 128) ≤ high) = true := by
    simp only [UInt8.le_iff_toNat_le, hoctet, hlow, hhigh, decide_true, Bool.and_self]
  rw [readTail, if_pos hbounds, hoctet, Nat.add_sub_cancel]

theorem readTail_continuation {owed value bits : Nat} (hbits : bits < 64) (rest : Octets) :
    readTail 0x80 0xBF (owed + 1) value (UInt8.ofNat (bits + 128) :: rest) =
      readTail 0x80 0xBF owed (value * 64 + bits) rest := by
  have hlow : (0x80 : UInt8).toNat ≤ bits + 128 := Nat.le_add_left ..
  have hhigh : bits + 128 ≤ (0xBF : UInt8).toNat := by
    show _ ≤ 0xBF
    omega
  exact readTail_ofNat hbits hlow hhigh rest

/-- The first octet of a character of more than one starts with the bits of the character, and tells
the bounds of the second octet and how many octets follow. -/
def Leads (first low high : UInt8) (owed bits : Nat) : Prop :=
  ¬ first < 0x80 ∧ tailShape first = some (low, high, owed) ∧ leadBits first owed = bits

instance (first low high : UInt8) (owed bits : Nat) : Decidable (Leads first low high owed bits) :=
  inferInstanceAs (Decidable (_ ∧ _ ∧ _))

theorem Leads.front_eq {first low high : UInt8} {owed bits : Nat} (h : Leads first low high owed bits)
    (rest : Octets) : front first rest = readTail low high owed bits rest := by
  obtain ⟨hfirst, hshape, hbits⟩ := h
  rw [front, if_neg hfirst, hshape, ← hbits]

theorem leads_two : ∀ bits < 32, 2 ≤ bits → Leads (UInt8.ofNat (bits + 192)) 0x80 0xBF 1 bits := by
  decide

/-- Overlong forms and surrogates are kept out by the second octet. -/
theorem leads_three : ∀ bits < 16, Leads (UInt8.ofNat (bits + 224))
    (if bits = 0 then 0xA0 else 0x80) (if bits = 13 then 0x9F else 0xBF) 2 bits := by
  decide

/-- Overlong forms and what is beyond U+10FFFF are kept out by the second octet. -/
theorem leads_four : ∀ bits < 5, Leads (UInt8.ofNat (bits + 240))
    (if bits = 0 then 0x90 else 0x80) (if bits = 4 then 0x8F else 0xBF) 3 bits := by
  decide

/-- The octets of a character are read as the character, and what follows is left. -/
theorem front_utf8EncodeChar (c : Char) :
    ∃ first tail, String.utf8EncodeChar c = first :: tail ∧
      ∀ rest, front first (tail ++ rest) = .character c rest := by
  have hvalid : c.val.toNat < 0xD800 ∨ 0xDFFF < c.val.toNat ∧ c.val.toNat < 0x110000 := c.valid
  have hback {n : Nat} (h : n = c.val.toNat) (rest : Octets) :
      Front.character (Char.ofNat n) rest = .character c rest := by
    rw [h]
    exact congrArg (Front.character · rest) (Char.ofNat_toNat c)
  rw [String.utf8EncodeChar]
  generalize c.val.toNat = v at hvalid hback
  by_cases hone : v ≤ 0x7F
  · refine ⟨UInt8.ofNat v, [], if_pos hone, fun rest => ?_⟩
    have hoctet : (UInt8.ofNat v).toNat = v := by
      rw [UInt8.toNat_ofNat']
      omega
    have hlow : UInt8.ofNat v < 0x80 := by
      rw [UInt8.lt_iff_toNat_lt, hoctet]
      exact Nat.lt_succ_of_le hone
    rw [front, if_pos hlow, hoctet]
    exact hback rfl rest
  by_cases htwo : v ≤ 0x7FF
  · refine ⟨_, _, by rw [if_neg hone, if_pos htwo], fun rest => ?_⟩
    rw [(leads_two _ (by omega) (by omega)).front_eq]
    simp only [List.cons_append, List.nil_append]
    rw [readTail_continuation (by omega), readTail]
    exact hback (by omega) rest
  by_cases hthree : v ≤ 0xFFFF
  · refine ⟨_, _, by rw [if_neg hone, if_neg htwo, if_pos hthree], fun rest => ?_⟩
    have hlow : (if v / 4096 % 16 = 0 then 0xA0 else 0x80 : UInt8).toNat ≤ v / 64 % 64 + 128 := by
      split
      · show 0xA0 ≤ _
        omega
      · exact Nat.le_add_left 128 _
    have hhigh : v / 64 % 64 + 128 ≤ (if v / 4096 % 16 = 13 then 0x9F else 0xBF : UInt8).toNat := by
      split
      · show _ ≤ 0x9F
        omega
      · show _ ≤ 0xBF
        omega
    rw [(leads_three _ (by omega)).front_eq]
    simp only [List.cons_append, List.nil_append]
    rw [readTail_ofNat (by omega) hlow hhigh, readTail_continuation (by omega), readTail]
    exact hback (by omega) rest
  · refine ⟨_, _, by rw [if_neg hone, if_neg htwo, if_neg hthree], fun rest => ?_⟩
    have hlow : (if v / 262144 % 8 = 0 then 0x90 else 0x80 : UInt8).toNat ≤ v / 4096 % 64 + 128 := by
      split
      · show 0x90 ≤ _
        omega
      · exact Nat.le_add_left 128 _
    have hhigh : v / 4096 % 64 + 128 ≤ (if v / 262144 % 8 = 4 then 0x8F else 0xBF : UInt8).toNat := by
      split
      · show _ ≤ 0x8F
        omega
      · show _ ≤ 0xBF
        omega
    rw [(leads_four _ (by omega)).front_eq]
    simp only [List.cons_append, List.nil_append]
    rw [readTail_ofNat (by omega) hlow hhigh, readTail_continuation (by omega),
      readTail_continuation (by omega), readTail]
    exact hback (by omega) rest

theorem exists_encode_cons (c : Char) (text : List Char) :
    ∃ first rest, encode (c :: text) = first :: rest ∧ front first rest = .character c (encode text) := by
  obtain ⟨first, tail, hc, hfront⟩ := front_utf8EncodeChar c
  refine ⟨first, tail ++ encode text, ?_, hfront _⟩
  rw [encode, List.flatMap_cons, hc, List.cons_append]
  rfl

/-- A text comes back from its octets. -/
theorem decodeLossy_encode (text : List Char) : decodeLossy (encode text) = text := by
  induction text with
  | nil => simp [encode, decodeLossy]
  | cons c text ih =>
    obtain ⟨first, rest, hencode, hfront⟩ := exists_encode_cons c text
    rw [hencode, decodeLossy_of_character hfront, ih]

end ActionBook.Text
