import ActionBook.Proofs.Text.Ascii
import ActionBook.Rest.Request
import Mathlib.Data.List.Induction
import Mathlib.Data.List.Nodup

/-!
# `Rest.Merging`: headers of two lists, each name once

Headers are put one after another: in the place of the one with the same name, or at the end. So a name
stands where it came first and has what came last, which leaves no choice about the result
(`Merged.unique`). Headers that have been merged before are put like those they were merged from
(`foldl_putHeader_foldl`), so merging is associative, and merging the same headers again changes
nothing.
-/

namespace ActionBook.Rest

variable {header other : Property} {headers merged more : List Property} {name : String}

/-! ## Names of headers -/

/-- The names of headers, up to the case of ASCII letters. -/
def names (headers : List Property) : List String := headers.map fun h => Http.lowered h.key

@[simp] theorem names_nil : names [] = [] := rfl

@[simp] theorem names_cons (header : Property) (rest : List Property) :
    names (header :: rest) = Http.lowered header.key :: names rest := rfl

theorem names_append (headers more : List Property) :
    names (headers ++ more) = names headers ++ names more := List.map_append

theorem mem_names_iff : name ∈ names headers ↔ ∃ h ∈ headers, Http.lowered h.key = name := List.mem_map

theorem mem_names_of_mem (h : header ∈ headers) : Http.lowered header.key ∈ names headers :=
  List.mem_map_of_mem h

theorem exists_sameName_iff {key : String} :
    (∃ h ∈ headers, sameName h.key key) ↔ Http.lowered key ∈ names headers := by
  simp [mem_names_iff, sameName]

theorem sameName_iff {a b : String} : sameName a b ↔ Http.lowered a = Http.lowered b :=
  decide_eq_true_iff

/-- Blanks have no case. -/
theorem isBlank_toLower (c : Char) : Text.isBlank c.toLower = Text.isBlank c :=
  Text.apply_toLower (by decide) c

theorem isBlankText_eq_of_sameName (h : sameName other.key header.key) :
    Text.isBlankText other.key = Text.isBlankText header.key := by
  have hkeys : other.key.toList.map Char.toLower = header.key.toList.map Char.toLower :=
    String.ofList_injective (sameName_iff.1 h)
  have hall (text : List Char) : text.all Text.isBlank = (text.map Char.toLower).all Text.isBlank := by
    simp [List.all_map, Function.comp_def, isBlank_toLower]
  rw [Text.isBlankText, Text.isBlankText, hall, hkeys, ← hall]

/-! ## Putting one header -/

theorem putHeader_cons_of_same (h : Http.lowered other.key = Http.lowered header.key)
    (rest : List Property) : putHeader (other :: rest) header = header :: rest := by
  rw [putHeader, if_pos (sameName_iff.2 h)]

theorem putHeader_cons_of_ne (h : Http.lowered other.key ≠ Http.lowered header.key)
    (rest : List Property) : putHeader (other :: rest) header = other :: putHeader rest header := by
  rw [putHeader, if_neg (mt sameName_iff.1 h)]

theorem names_putHeader (merged : List Property) (header : Property) :
    names (putHeader merged header) =
      if Http.lowered header.key ∈ names merged then names merged
      else names merged ++ [Http.lowered header.key] := by
  induction merged with
  | nil => rfl
  | cons other rest ih =>
    by_cases hsame : Http.lowered other.key = Http.lowered header.key
    · rw [putHeader_cons_of_same hsame]
      simp [hsame]
    · rw [putHeader_cons_of_ne hsame, names_cons, ih, names_cons]
      simp only [List.mem_cons, Ne.symm hsame, false_or]
      split
      · rfl
      · rw [List.cons_append]

theorem mem_names_putHeader :
    name ∈ names (putHeader merged header) ↔ name ∈ names merged ∨ name = Http.lowered header.key := by
  rw [names_putHeader]
  split
  next hold =>
    refine ⟨.inl, ?_⟩
    rintro (h | rfl)
    · exact h
    · exact hold
  next => simp

theorem nodup_putHeader (h : (names merged).Nodup) (header : Property) :
    (names (putHeader merged header)).Nodup := by
  rw [names_putHeader]
  split
  · exact h
  next hnew => exact List.nodup_append_comm.1 (List.nodup_cons.2 ⟨hnew, h⟩)

/-- What is there afterwards is the header itself, or was there before under another name. -/
theorem mem_putHeader (hnodup : (names merged).Nodup) (h : other ∈ putHeader merged header) :
    other = header ∨ other ∈ merged ∧ Http.lowered other.key ≠ Http.lowered header.key := by
  induction merged with
  | nil => exact .inl (List.mem_singleton.1 h)
  | cons first rest ih =>
    rw [names_cons, List.nodup_cons] at hnodup
    by_cases hsame : Http.lowered first.key = Http.lowered header.key
    · rw [putHeader_cons_of_same hsame, List.mem_cons] at h
      refine h.imp_right fun hmem => ⟨List.mem_cons_of_mem _ hmem, fun heq => hnodup.1 ?_⟩
      rw [hsame, ← heq]
      exact mem_names_of_mem hmem
    · rw [putHeader_cons_of_ne hsame, List.mem_cons] at h
      rcases h with rfl | h
      · exact .inr ⟨List.mem_cons_self, hsame⟩
      · exact (ih hnodup.2 h).imp_right fun h => ⟨List.mem_cons_of_mem _ h.1, h.2⟩

/-! ## What merging comes to -/

/-- What the headers in a list come to: of each name that is not blank there is one header, the last
of that name, and it stands where the first of that name stands. -/
structure Merged (headers merged : List Property) : Prop where
  nodup : (names merged).Nodup
  exists_iff : ∀ key, (∃ h ∈ merged, sameName h.key key) ↔
    ∃ h ∈ headers, ¬ Text.isBlankText h.key ∧ sameName h.key key
  last : ∀ h ∈ merged, ∃ before after, headers = before ++ h :: after ∧
    ∀ later ∈ after, ¬ sameName later.key h.key
  ordered : (names merged).Pairwise fun a b => (names headers).idxOf a < (names headers).idxOf b

namespace Merged

theorem nil : Merged [] [] := ⟨by simp, by simp, by simp, by simp⟩

theorem subset (h : Merged headers merged) : merged ⊆ headers := by
  intro header hheader
  obtain ⟨before, after, rfl, -⟩ := h.last header hheader
  simp

theorem mem_names (h : Merged headers merged) (hname : name ∈ names merged) : name ∈ names headers :=
  List.map_subset _ h.subset hname

theorem not_isBlankText (h : Merged headers merged) (hheader : header ∈ merged) :
    ¬ Text.isBlankText header.key := by
  obtain ⟨first, -, hfirst, hsame⟩ := (h.exists_iff header.key).1 ⟨header, hheader, sameName_iff.2 rfl⟩
  rwa [← isBlankText_eq_of_sameName hsame]

/-- More headers at the end leave the order of names as it is. -/
theorem ordered_append (h : Merged headers merged) (more : List Property) :
    (names merged).Pairwise fun a b =>
      (names (headers ++ more)).idxOf a < (names (headers ++ more)).idxOf b := by
  refine h.ordered.imp_of_mem fun {a b} ha hb hlt => ?_
  rwa [names_append, List.idxOf_append_of_mem (h.mem_names ha), List.idxOf_append_of_mem (h.mem_names hb)]

/-- A header without a name is left out. -/
theorem concat_blank (h : Merged headers merged) (hblank : Text.isBlankText header.key) :
    Merged (headers ++ [header]) merged := by
  refine ⟨h.nodup, fun key => ?_, fun g hg => ?_, h.ordered_append _⟩
  · rw [h.exists_iff]
    simp [hblank]
  · obtain ⟨before, after, rfl, hafter⟩ := h.last g hg
    refine ⟨before, after ++ [header], by simp, fun later hlater => ?_⟩
    rcases List.mem_append.1 hlater with hlater | hlater
    · exact hafter later hlater
    · intro hsame
      rw [List.mem_singleton.1 hlater] at hsame
      exact h.not_isBlankText hg (by rwa [← isBlankText_eq_of_sameName hsame])

/-- A header with a name is put. -/
theorem concat (h : Merged headers merged) (hnamed : ¬ Text.isBlankText header.key) :
    Merged (headers ++ [header]) (putHeader merged header) := by
  refine ⟨nodup_putHeader h.nodup header, fun key => ?_, fun g hg => ?_, ?_⟩
  · rw [exists_sameName_iff, mem_names_putHeader, ← exists_sameName_iff, h.exists_iff,
      eq_comm (b := Http.lowered header.key), ← sameName_iff]
    simp [hnamed, or_and_right, exists_or]
  · rcases mem_putHeader h.nodup hg with rfl | ⟨hg, hne⟩
    · exact ⟨headers, [], by simp, by simp⟩
    · obtain ⟨before, after, rfl, hafter⟩ := h.last g hg
      refine ⟨before, after ++ [header], by simp, fun later hlater => ?_⟩
      rcases List.mem_append.1 hlater with hlater | hlater
      · exact hafter later hlater
      · rw [List.mem_singleton.1 hlater, sameName_iff]
        exact Ne.symm hne
  · rw [names_putHeader]
    split
    · exact h.ordered_append _
    next hnew =>
      refine List.pairwise_append.2 ⟨h.ordered_append _, List.pairwise_singleton .., fun a ha b hb => ?_⟩
      -- the name has not been there before, so it comes after all that have
      have hfirst : Http.lowered header.key ∉ names headers := by
        intro hmem
        obtain ⟨old, hold, hsame⟩ := mem_names_iff.1 hmem
        refine hnew (exists_sameName_iff.1 ((h.exists_iff header.key).2 ⟨old, hold, ?_, ?_⟩))
        · rwa [isBlankText_eq_of_sameName (sameName_iff.2 hsame)]
        · exact sameName_iff.2 hsame
      rw [List.mem_singleton.1 hb, names_append, List.idxOf_append_of_mem (h.mem_names ha),
        List.idxOf_append_of_notMem hfirst]
      exact Nat.lt_add_right _ (List.idxOf_lt_length_of_mem (h.mem_names ha))

/-- What comes later beats what came before. -/
theorem mem_right (h : Merged (headers ++ more) merged) (hheader : header ∈ merged)
    (hother : other ∈ more) (hsame : sameName other.key header.key) : header ∈ more := by
  obtain ⟨before, after, heq, hafter⟩ := h.last header hheader
  rcases List.append_eq_append_iff.1 heq with ⟨middle, -, rfl⟩ | ⟨middle, hbefore, hrest⟩
  · simp
  · cases middle with
    | nil =>
      rw [List.nil_append] at hrest
      rw [← hrest]
      exact List.mem_cons_self
    | cons first middle =>
      cases hrest
      exact absurd hsame (hafter other (List.mem_append_right _ hother))

end Merged

/-- Merging comes to this. -/
theorem merged_mergedHeaders (base overrides : List Property) :
    Merged (base ++ overrides) (mergedHeaders base overrides) := by
  unfold mergedHeaders
  induction base ++ overrides using List.reverseRecOn with
  | nil => exact .nil
  | append_singleton headers header ih =>
    rw [List.filter_append, List.foldl_append]
    cases hblank : Text.isBlankText header.key with
    | true =>
      rw [List.filter_cons_of_neg (by simp [hblank])]
      exact ih.concat_blank hblank
    | false =>
      rw [List.filter_cons_of_pos (by simp [hblank])]
      exact ih.concat (by simp [hblank])

/-! ## No choice -/

/-- The last header of a name is one header. -/
theorem getLast?_filter_sameName (before : List Property) {after : List Property} {key : String}
    (h : ∀ later ∈ after, ¬ sameName later.key header.key) (hsame : sameName header.key key) :
    ((before ++ header :: after).filter fun h => sameName h.key key).getLast? = some header := by
  have hafter : after.filter (fun h => sameName h.key key) = [] := by
    refine List.filter_eq_nil_iff.2 fun later hlater hname => h later hlater ?_
    rw [sameName_iff] at hsame hname ⊢
    exact hname.trans hsame.symm
  rw [List.filter_append, List.filter_cons, if_pos hsame, hafter, List.getLast?_concat]

theorem eq_of_names_eq (hnames : names merged = names more)
    (hsame : ∀ g ∈ merged, ∀ h ∈ more, sameName g.key h.key → g = h) : merged = more := by
  induction merged generalizing more with
  | nil =>
    cases more with
    | nil => rfl
    | cons h more => cases hnames
  | cons g merged ih =>
    cases more with
    | nil => cases hnames
    | cons h more =>
      rw [names_cons, names_cons, List.cons.injEq] at hnames
      rw [hsame g List.mem_cons_self h List.mem_cons_self (sameName_iff.2 hnames.1)]
      refine congrArg _ (ih hnames.2 fun g hg h hh => ?_)
      exact hsame g (List.mem_cons_of_mem _ hg) h (List.mem_cons_of_mem _ hh)

/-- There is one list only that some headers come to. -/
theorem Merged.unique (h : Merged headers merged) (h' : Merged headers more) : merged = more := by
  have hkeys (key : String) : Http.lowered key ∈ names merged ↔ Http.lowered key ∈ names more := by
    rw [← exists_sameName_iff, ← exists_sameName_iff, h.exists_iff, h'.exists_iff]
  have hmem (name : String) : name ∈ names merged ↔ name ∈ names more := by
    constructor
    all_goals
      intro hname
      obtain ⟨g, -, rfl⟩ := mem_names_iff.1 hname
    · exact (hkeys g.key).1 hname
    · exact (hkeys g.key).2 hname
  have hperm := (List.perm_ext_iff_of_nodup h.nodup h'.nodup).2 hmem
  refine eq_of_names_eq ?_ fun g hg g' hg' hsame => ?_
  · exact hperm.eq_of_pairwise (fun a b _ _ hab hba => absurd hab (Nat.lt_asymm hba)) h.ordered h'.ordered
  · obtain ⟨before, after, heq, hafter⟩ := h.last g hg
    obtain ⟨before', after', heq', hafter'⟩ := h'.last g' hg'
    have hlast := getLast?_filter_sameName before hafter hsame
    have hlast' := getLast?_filter_sameName before' hafter' (sameName_iff.2 rfl)
    rw [← heq] at hlast
    rw [← heq', hlast] at hlast'
    exact Option.some.inj hlast'

/-! ## Merging what has been merged -/

theorem putHeader_putHeader_of_same (h : Http.lowered other.key = Http.lowered header.key)
    (merged : List Property) : putHeader (putHeader merged other) header = putHeader merged header := by
  induction merged with
  | nil => exact putHeader_cons_of_same h []
  | cons first rest ih =>
    by_cases hsame : Http.lowered first.key = Http.lowered other.key
    · rw [putHeader_cons_of_same hsame, putHeader_cons_of_same h, putHeader_cons_of_same (hsame.trans h)]
    · have hne : Http.lowered first.key ≠ Http.lowered header.key := by rwa [← h]
      rw [putHeader_cons_of_ne hsame, putHeader_cons_of_ne hne, putHeader_cons_of_ne hne, ih]

/-- A header with a name that is there already can be put before or after one of another name. -/
theorem putHeader_comm (hne : Http.lowered other.key ≠ Http.lowered header.key)
    (hmem : Http.lowered header.key ∈ names merged) :
    putHeader (putHeader merged other) header = putHeader (putHeader merged header) other := by
  induction merged with
  | nil => cases hmem
  | cons first rest ih =>
    by_cases hother : Http.lowered first.key = Http.lowered other.key
    · have hfirst : Http.lowered first.key ≠ Http.lowered header.key := by rwa [hother]
      rw [putHeader_cons_of_same hother, putHeader_cons_of_ne hne, putHeader_cons_of_ne hfirst,
        putHeader_cons_of_same hother]
    · by_cases hheader : Http.lowered first.key = Http.lowered header.key
      · rw [putHeader_cons_of_ne hother, putHeader_cons_of_same hheader, putHeader_cons_of_same hheader,
          putHeader_cons_of_ne hne.symm]
      · have hrest : Http.lowered header.key ∈ names rest :=
          (List.mem_cons.1 hmem).resolve_left (Ne.symm hheader)
        rw [putHeader_cons_of_ne hother, putHeader_cons_of_ne hheader, putHeader_cons_of_ne hheader,
          putHeader_cons_of_ne hother, ih hrest]

theorem foldl_putHeader_comm (hmem : Http.lowered header.key ∈ names merged)
    (hnew : Http.lowered header.key ∉ names headers) :
    putHeader (headers.foldl putHeader merged) header =
      headers.foldl putHeader (putHeader merged header) := by
  induction headers generalizing merged with
  | nil => rfl
  | cons first rest ih =>
    rw [names_cons, List.mem_cons, not_or] at hnew
    rw [List.foldl_cons, List.foldl_cons, ih (mem_names_putHeader.2 (.inl hmem)) hnew.2,
      putHeader_comm (Ne.symm hnew.1) hmem]

theorem foldl_putHeader_putHeader (hnodup : (names headers).Nodup) (merged : List Property)
    (header : Property) :
    (putHeader headers header).foldl putHeader merged =
      putHeader (headers.foldl putHeader merged) header := by
  induction headers generalizing merged with
  | nil => rfl
  | cons first rest ih =>
    rw [names_cons, List.nodup_cons] at hnodup
    by_cases hsame : Http.lowered first.key = Http.lowered header.key
    · have hmem : Http.lowered header.key ∈ names (putHeader merged first) :=
        mem_names_putHeader.2 (.inr hsame.symm)
      rw [putHeader_cons_of_same hsame, List.foldl_cons, List.foldl_cons,
        foldl_putHeader_comm hmem (hsame ▸ hnodup.1), putHeader_putHeader_of_same hsame]
    · rw [putHeader_cons_of_ne hsame, List.foldl_cons, List.foldl_cons, ih hnodup.2]

/-- Headers that have been put before are put like those they came from. -/
theorem foldl_putHeader_foldl (hnodup : (names more).Nodup) (headers merged : List Property) :
    (headers.foldl putHeader more).foldl putHeader merged =
      headers.foldl putHeader (more.foldl putHeader merged) := by
  induction headers generalizing more with
  | nil => rfl
  | cons header headers ih =>
    rw [List.foldl_cons, ih (nodup_putHeader hnodup header), foldl_putHeader_putHeader hnodup,
      List.foldl_cons]

theorem putHeader_of_mem (hnodup : (names merged).Nodup) (h : header ∈ merged) :
    putHeader merged header = merged := by
  induction merged with
  | nil => cases h
  | cons first rest ih =>
    rw [names_cons, List.nodup_cons] at hnodup
    rcases List.mem_cons.1 h with rfl | h
    · exact putHeader_cons_of_same rfl rest
    · have hne : Http.lowered first.key ≠ Http.lowered header.key := by
        intro hsame
        exact hnodup.1 (hsame ▸ mem_names_of_mem h)
      rw [putHeader_cons_of_ne hne, ih hnodup.2 h]

theorem foldl_putHeader_of_subset (hnodup : (names merged).Nodup) (h : headers ⊆ merged) :
    headers.foldl putHeader merged = merged := by
  induction headers with
  | nil => rfl
  | cons header headers ih =>
    rw [List.cons_subset] at h
    rw [List.foldl_cons, putHeader_of_mem hnodup h.1, ih h.2]

/-- Headers that have been merged are put like those they have been merged from. -/
theorem foldl_mergedHeaders (headers merged : List Property) :
    (mergedHeaders [] headers).foldl putHeader merged =
      (headers.filter fun h => !Text.isBlankText h.key).foldl putHeader merged :=
  foldl_putHeader_foldl (show (names []).Nodup from List.nodup_nil) _ _

theorem mergedHeaders_eq_foldl (base overrides : List Property) :
    mergedHeaders base overrides =
      (overrides.filter fun h => !Text.isBlankText h.key).foldl putHeader (mergedHeaders [] base) := by
  rw [mergedHeaders, List.filter_append, List.foldl_append]
  rfl

theorem mergedHeaders_mergedHeaders_nil (base overrides : List Property) :
    mergedHeaders base (mergedHeaders [] overrides) = mergedHeaders base overrides := by
  have hnamed : (mergedHeaders [] overrides).filter (fun h => !Text.isBlankText h.key) =
      mergedHeaders [] overrides := by
    refine List.filter_eq_self.2 fun header hheader => ?_
    simpa using (merged_mergedHeaders [] overrides).not_isBlankText hheader
  rw [mergedHeaders_eq_foldl, hnamed, foldl_mergedHeaders, ← mergedHeaders_eq_foldl]

theorem mergedHeaders_assoc (base overrides more : List Property) :
    mergedHeaders (mergedHeaders base overrides) more =
      mergedHeaders base (mergedHeaders overrides more) := by
  calc mergedHeaders (mergedHeaders base overrides) more
    _ = mergedHeaders (base ++ overrides) more := by
        rw [mergedHeaders_eq_foldl, mergedHeaders_eq_foldl (base ++ overrides),
          ← mergedHeaders_mergedHeaders_nil [] (base ++ overrides)]
        rfl
    _ = mergedHeaders base (overrides ++ more) := by
        rw [mergedHeaders, List.append_assoc]
        rfl
    _ = mergedHeaders base (mergedHeaders overrides more) :=
        (mergedHeaders_mergedHeaders_nil base (overrides ++ more)).symm

theorem mergedHeaders_self (headers : List Property) :
    mergedHeaders headers headers = mergedHeaders [] headers := by
  rw [mergedHeaders_eq_foldl, ← foldl_mergedHeaders]
  exact foldl_putHeader_of_subset (merged_mergedHeaders [] headers).nodup (List.Subset.refl _)

/-- Headers that have been merged override nothing for a second time. -/
theorem mergedHeaders_right_idem (base overrides : List Property) :
    mergedHeaders (mergedHeaders base overrides) overrides = mergedHeaders base overrides := by
  rw [mergedHeaders_assoc, mergedHeaders_self, mergedHeaders_mergedHeaders_nil]

/-! ## The main statement -/

/-- Merging two lists of headers gives the one list that the headers of both come to, where a header of
the second list beats all of its name in the first; and it may be done in steps, or once more. -/
theorem merging_keeps_last_in_first_place (base overrides : List Property) :
    (∀ merged, Merged (base ++ overrides) merged ↔ merged = mergedHeaders base overrides) ∧
      (∀ h ∈ mergedHeaders base overrides, (∃ g ∈ overrides, sameName g.key h.key) → h ∈ overrides) ∧
      mergedHeaders (mergedHeaders base overrides) overrides = mergedHeaders base overrides ∧
      ∀ more, mergedHeaders (mergedHeaders base overrides) more =
        mergedHeaders base (mergedHeaders overrides more) := by
  refine ⟨fun merged => ⟨fun h => ?_, ?_⟩, fun h hh ⟨g, hg, hsame⟩ => ?_,
    mergedHeaders_right_idem base overrides, mergedHeaders_assoc base overrides⟩
  · exact h.unique (merged_mergedHeaders base overrides)
  · rintro rfl
    exact merged_mergedHeaders base overrides
  · exact (merged_mergedHeaders base overrides).mem_right hh hg hsame

end ActionBook.Rest
