import ActionBook.Proofs.Text.Ascii
import ActionBook.Proofs.Text.Cutting
import ActionBook.Proofs.Url.Escaping
import ActionBook.Url.Form

/-!
# `Url.Form`: pairs come back from a query

Names and values come back from how they are written (`formValue_formText`), since the signs between
them are written for nothing else. So a query that more pairs have been added to has these pairs after
its own, whatever its own text is like (`pairs_appendPairs`), and what is added consists of characters
that stand for themselves in any query (`exists_added`).
-/

namespace ActionBook.Url

variable {s : String} {c : Char} {query : Option (List Char)} {pair : String × String}

/-! ## Characters of names and values -/

/-- Whether a character occurs in written names and values. -/
def isFormSign (c : Char) : Bool := keptInForm c || c = '%' || c = '+'

theorem isAlphanum_of_isSome_digitValue? (h : (Text.digitValue? c).isSome) : c.isAlphanum := by
  rw [Text.isAlphanum_iff]
  simp only [Text.digitValue?, Bool.and_eq_true, decide_eq_true_eq] at h
  grind

theorem isFormSign_of_mem_formText (h : c ∈ formText s) : isFormSign c := by
  obtain ⟨d, -, hc⟩ := List.mem_flatMap.1 h
  rw [formChar] at hc
  split at hc
  · rw [List.mem_singleton.1 hc]
    rfl
  · rcases mem_escapedChar hc with ⟨hkept, -⟩ | hsign
    · simp [isFormSign, hkept]
    · simp only [isEscapeSign, Bool.or_eq_true, decide_eq_true_eq] at hsign
      rcases hsign with rfl | hdigit
      · rfl
      · simp [isFormSign, keptInForm, isAlphanum_of_isSome_digitValue? hdigit]

/-- Characters that are kept are of ASCII, and neither plus signs nor the start of escapes. -/
theorem of_keptInForm (h : keptInForm c) : c.toNat < 0x80 ∧ c ≠ '%' ∧ c ≠ '+' := by
  simp only [keptInForm, Bool.or_eq_true, decide_eq_true_eq, Text.isAlphanum_iff] at h
  rcases h with (((h | rfl) | rfl) | rfl) | rfl
  · refine ⟨by omega, ?_, ?_⟩
    all_goals
      rintro rfl
      exact absurd h (by decide)
  all_goals decide

/-! ## Names and values come back -/

/-- A written text with spaces for plus signs. -/
def spaced (written : List Char) : List Char := written.map fun c => if c = '+' then ' ' else c

theorem spaced_eq_self {written : List Char} (h : '+' ∉ written) : spaced written = written := by
  refine (List.map_congr_left fun c hc => ?_).trans (List.map_id written)
  refine if_neg ?_
  rintro rfl
  exact h hc

theorem unescaped_formChar (c : Char) (rest : Text.Octets) :
    unescaped (Text.encode (spaced (formChar c)) ++ rest) =
      String.utf8EncodeChar c ++ unescaped rest := by
  rw [formChar]
  split
  next hspace =>
    subst hspace
    exact unescaped_cons_of_ne (by decide) rest
  next =>
    rw [escapedChar]
    split
    next hkept =>
      obtain ⟨hascii, hsign, hplus⟩ := of_keptInForm hkept
      have hoctet : UInt8.ofNat c.toNat ≠ 0x25 := by
        intro heq
        have hnat := congrArg UInt8.toNat heq
        rw [UInt8.toNat_ofNat', Nat.mod_eq_of_lt (by omega)] at hnat
        exact hsign (Char.toNat_inj.1 hnat)
      have hc : String.utf8EncodeChar c = [UInt8.ofNat c.toNat] := by
        rw [← encode_singleton hascii, Text.encode, List.flatMap_singleton]
      rw [spaced_eq_self (by simpa using Ne.symm hplus), encode_singleton hascii, hc]
      exact unescaped_cons_of_ne hoctet rest
    next =>
      have hplus : '+' ∉ (String.utf8EncodeChar c).flatMap escapedOctet := by
        intro hmem
        obtain ⟨b, -, hb⟩ := List.mem_flatMap.1 hmem
        exact absurd (isEscapeSign_of_mem_escapedOctet hb) (by decide)
      rw [spaced_eq_self hplus, unescaped_flatMap_escapedOctet]

theorem unescaped_flatMap_formChar (text : List Char) :
    unescaped (Text.encode (spaced (text.flatMap formChar))) = Text.encode text := by
  induction text with
  | nil => rfl
  | cons c text ih =>
    rw [List.flatMap_cons, spaced, List.map_append, encode_append]
    exact (unescaped_formChar c _).trans (congrArg (String.utf8EncodeChar c ++ ·) ih)

/-- A name or a value comes back from how it is written. -/
theorem formValue_formText (s : String) : formValue (formText s) = s := by
  show String.ofList (Text.decodeLossy (unescaped (Text.encode (spaced (s.toList.flatMap formChar))))) = s
  rw [unescaped_flatMap_formChar, Text.decodeLossy_encode, String.ofList_toList]

theorem pairOf_formPair (pair : String × String) : pairOf (formPair pair) = pair := by
  have hequals : '=' ∉ formText pair.1 := fun h => absurd (isFormSign_of_mem_formText h) (by decide)
  rw [pairOf, formPair, Text.cutAt_append hequals]
  simp only [formValue_formText]

/-! ## Queries with more pairs -/

theorem ampersand_not_mem_formPair (pair : String × String) : '&' ∉ formPair pair := by
  have htext (s : String) : '&' ∉ formText s := fun h => absurd (isFormSign_of_mem_formText h) (by decide)
  simp [formPair, htext]

theorem formPair_ne_nil (pair : String × String) : formPair pair ≠ [] := by
  simp [formPair]

/-- The pairs of a text are those of its pieces. -/
theorem pairs_some (text : List Char) :
    pairs (some text) = ((Text.splitOn '&' text).filter fun piece => !piece.isEmpty).map pairOf := rfl

theorem pairs_formPair (pair : String × String) : pairs (some (formPair pair)) = [pair] := by
  rw [pairs_some, Text.splitOn_of_not_mem (ampersand_not_mem_formPair pair),
    List.filter_cons_of_pos (by simpa using formPair_ne_nil pair), List.filter_nil, List.map_cons,
    pairOf_formPair, List.map_nil]

theorem pairs_appendPair (query : Option (List Char)) (pair : String × String) :
    pairs (appendPair query pair) = pairs query ++ [pair] := by
  unfold appendPair
  split
  · exact pairs_formPair pair
  · exact pairs_formPair pair
  next query _ =>
    rw [pairs_some, Text.splitOn_append, List.filter_append, List.map_append, ← pairs_some,
      ← pairs_some, pairs_formPair]

/-- A query has the pairs that are added to it after its own. -/
theorem pairs_appendPairs (query : Option (List Char)) (more : List (String × String)) :
    pairs (appendPairs query more) = pairs query ++ more := by
  induction more generalizing query with
  | nil => exact (List.append_nil _).symm
  | cons pair more ih =>
    show pairs (appendPairs (appendPair query pair) more) = _
    rw [ih, pairs_appendPair, List.append_assoc, List.singleton_append]

/-- Whether a character occurs in pairs that are added. -/
def isPairSign (c : Char) : Bool := isFormSign c || c = '=' || c = '&'

theorem isPairSign_of_mem_formPair (h : c ∈ formPair pair) : isPairSign c := by
  rcases List.mem_append.1 h with h | h
  · simp [isPairSign, isFormSign_of_mem_formText h]
  · rcases List.mem_cons.1 h with rfl | h
    · rfl
    · simp [isPairSign, isFormSign_of_mem_formText h]

/-- Pairs are added behind the query, in signs that stand for themselves anywhere. -/
theorem exists_added (query : Option (List Char)) (more : List (String × String)) :
    ∃ added, (appendPairs query more).getD [] = query.getD [] ++ added ∧ ∀ c ∈ added, isPairSign c := by
  induction more generalizing query with
  | nil => exact ⟨[], (List.append_nil _).symm, by simp⟩
  | cons pair more ih =>
    obtain ⟨added, hadded, hsigns⟩ := ih (appendPair query pair)
    have hpair : ∃ first, (appendPair query pair).getD [] = query.getD [] ++ first ∧
        ∀ c ∈ first, isPairSign c := by
      unfold appendPair
      split
      · exact ⟨formPair pair, rfl, fun c => isPairSign_of_mem_formPair⟩
      · exact ⟨formPair pair, rfl, fun c => isPairSign_of_mem_formPair⟩
      next query _ =>
        refine ⟨'&' :: formPair pair, rfl, List.forall_mem_cons.2 ⟨rfl, fun c => ?_⟩⟩
        exact isPairSign_of_mem_formPair
    obtain ⟨first, hfirst, hfirstSigns⟩ := hpair
    refine ⟨first ++ added, ?_, fun c hc => ?_⟩
    · rw [← List.append_assoc, ← hfirst]
      exact hadded
    · rcases List.mem_append.1 hc with hc | hc
      · exact hfirstSigns c hc
      · exact hsigns c hc

end ActionBook.Url
