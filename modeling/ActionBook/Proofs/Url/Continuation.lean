import ActionBook.Proofs.Url.Authority
import ActionBook.Proofs.Url.Path

/-!
# `Url.Continuation`: addresses that go on

The text of an address may go on with a slash, in place of the slashes at its end. What has been read
before that slash is read again (`exists_continues`), so the longer text leads to the same place
(`SameAuthority.of_parse`). Only blanks and controls that had been cut off at the end make a difference.
Without query and fragment, it is the path that goes on (`Continues.write_path_of_names`).
-/

namespace ActionBook.Url

variable {text front more rest left scheme slashes edges : List Char} {u v : Url}

/-! ## Controls and blanks at the end -/

theorem isEdge_getLast?_cleaned (text : List Char) :
    ∀ c ∈ (cleaned text).getLast?, isEdge c = false := by
  change ∀ c ∈ (((text.dropWhile isEdge).reverse.dropWhile isEdge).reverse.filter isKept).getLast?, _
  have hfirst := List.head?_dropWhile_not isEdge (text.dropWhile isEdge).reverse
  cases hinner : (text.dropWhile isEdge).reverse.dropWhile isEdge with
  | nil => simp
  | cons d inner =>
    rw [hinner] at hfirst
    replace hfirst : isEdge d = false := hfirst
    -- what is left begins with no edge from behind, and that is kept
    rw [List.reverse_cons, List.filter_append,
      List.filter_cons_of_pos (isKept_of_not_isEdge hfirst)]
    simpa using hfirst

/-- Whether something is cut off at the end shows at the last character that is kept. -/
theorem edges_eq_nil_iff (htext : cleaned text ≠ []) (hedges : ∀ c ∈ edges, isEdge c = true)
    (hfront : cleanedFront text = cleaned text ++ edges) :
    edges = [] ↔ ∀ c ∈ (text.filter isKept).getLast?, isEdge c = false := by
  have hlast : (text.filter isKept).getLast? = (cleaned text ++ edges).getLast? := by
    have hnonempty : cleanedFront text ≠ [] := by simp [hfront, htext]
    have hsplit : text.filter isKept = (text.takeWhile isEdge).filter isKept ++ cleanedFront text := by
      rw [cleanedFront, ← List.filter_append, List.takeWhile_append_dropWhile]
    rw [hsplit, List.getLast?_append_of_ne_nil _ hnonempty, hfront]
  rw [hlast]
  constructor
  · rintro rfl
    rw [List.append_nil]
    exact isEdge_getLast?_cleaned text
  · intro h
    by_contra hnone
    rw [List.getLast?_append_of_ne_nil _ hnone] at h
    have hedge := hedges _ (List.getLast_mem hnone)
    rw [h _ (List.getLast?_eq_getLast_of_ne_nil hnone)] at hedge
    cases hedge

/-! ## The text of an address that goes on -/

/-- What paths keep is not cut off, and it ends no path. -/
theorem of_keptInPath {c : Char} (h : keptInPath c = true) : isEdge c = false ∧ endsPath c = false := by
  have hplain : c.toNat ≤ 0x7E := by
    simp only [keptInPath, keptInFragment, isPlain, Bool.and_eq_true, decide_eq_true_eq] at h
    exact h.1.1.2
  exact Text.of_toNat_lt (p := fun c => keptInPath c = true → isEdge c = false ∧ endsPath c = false)
    (Nat.lt_succ_of_le hplain) (by decide +kernel) h

theorem IsNames.cleanedBack_eq (h : IsNames text) : cleanedBack text = text := by
  have hedge : ∀ c ∈ text, isEdge c = false := fun c hc => (of_keptInPath (h.kept c hc).1).1
  have hdrop : text.reverse.dropWhile isEdge = text.reverse := by
    cases htext : text.reverse with
    | nil => rfl
    | cons c rest =>
      have hc : isEdge c = false := hedge c (List.mem_reverse.1 (by rw [htext]; simp))
      exact List.dropWhile_cons_of_neg (by simp [hc])
  rw [cleanedBack, hdrop, List.reverse_reverse, List.filter_eq_self]
  exact fun c hc => isKept_of_not_isEdge (hedge c hc)

/-- How an address is read whose text goes on with a slash after `front`: after the scheme comes `text`,
to the end of the address `slashes` and nothing else, and before what comes next the `edges` that had
been cut off. -/
structure Continues [Idna] (u : Url) (front text slashes edges : List Char) : Prop where
  read : readHosted u.scheme (text ++ slashes) = .ok u
  all_slashes : ∀ c ∈ slashes, c = '/'
  all_edges : ∀ c ∈ edges, isEdge c = true
  nil_or_nil : slashes = [] ∨ edges = []
  parse_eq : ∀ more, parse (front ++ '/' :: more) =
    readHosted u.scheme (text ++ edges ++ '/' :: cleanedBack more)

theorem continues_of_slashes [Idna] (hu : parse (front ++ '/' :: slashes) = .ok u)
    (hslashes : ∀ c ∈ slashes, c = '/') (hspecial : isSpecial u.scheme = true)
    (hfile : u.scheme ≠ fileScheme) : ∃ text slashes, u.Continues front text slashes [] := by
  obtain ⟨rest, hcut, hread⟩ := exists_cutScheme?_of_parse hu hspecial hfile
  have hback : ∀ c ∈ cleanedBack slashes, c = '/' := by
    intro c hc
    have hmem := List.mem_reverse.1 (List.mem_filter.1 hc).1
    exact hslashes c (List.mem_reverse.1 ((List.dropWhile_suffix isEdge).mem hmem))
  rw [cleaned_slash] at hcut
  obtain ⟨rest, hfront, rfl⟩ := exists_cutScheme?_of_slash hcut
  have hrest : afterSlashes rest ≠ [] := by
    intro hempty
    -- there would be slashes after the scheme and nothing else
    have hnil : afterSlashes (rest ++ '/' :: cleanedBack slashes) = [] := by
      rw [afterSlashes, List.dropWhile_eq_nil_iff] at hempty ⊢
      intro c hc
      rcases List.mem_append.1 hc with hc | hc
      · exact hempty c hc
      · rcases List.mem_cons.1 hc with rfl | hc
        · rfl
        · rw [hback c hc]
          rfl
    rw [hnil] at hread
    exact absurd hread (readHosted_nil_ne_ok hspecial)
  rw [afterSlashes_append hrest] at hread
  refine ⟨afterSlashes rest, '/' :: cleanedBack slashes, hread, ?_, by simp, .inr rfl, fun more => ?_⟩
  · exact List.forall_mem_cons.2 ⟨rfl, hback⟩
  · have hcut' : cutScheme? (cleaned (front ++ '/' :: more)) =
        some (u.scheme, rest ++ '/' :: cleanedBack more) := by
      rw [cleaned_slash]
      exact cutScheme?_append hfront _
    rw [parse_eq_readHosted hcut' hspecial hfile, afterSlashes_append hrest, List.append_nil]

theorem continues_of_edges [Idna] (hu : parse front = .ok u) (hspecial : isSpecial u.scheme = true)
    (hfile : u.scheme ≠ fileScheme) (hedges : ∀ c ∈ edges, isEdge c = true)
    (hfront : cleanedFront front = cleaned front ++ edges) :
    ∃ text, u.Continues front text [] edges := by
  obtain ⟨rest, hcut, hread⟩ := exists_cutScheme?_of_parse hu hspecial hfile
  have hrest : afterSlashes rest ≠ [] := by
    intro hempty
    rw [hempty] at hread
    exact readHosted_nil_ne_ok hspecial hread
  refine ⟨afterSlashes rest, by rwa [List.append_nil], by simp, hedges, .inl rfl, fun more => ?_⟩
  have hcut' : cutScheme? (cleaned (front ++ '/' :: more)) =
      some (u.scheme, rest ++ (edges ++ '/' :: cleanedBack more)) := by
    rw [cleaned_slash, hfront, List.append_assoc]
    exact cutScheme?_append hcut _
  rw [parse_eq_readHosted hcut' hspecial hfile, afterSlashes_append hrest, List.append_assoc]

/-- The controls and blanks at its end are what keeps an address from going on as it is. -/
theorem exists_continues [Idna] (hu : parse (front ++ slashes) = .ok u) (hslashes : ∀ c ∈ slashes, c = '/')
    (hspecial : isSpecial u.scheme = true) (hfile : u.scheme ≠ fileScheme) :
    ∃ text slashes' edges, u.Continues front text slashes' edges ∧
      (edges = [] ↔ ∀ c ∈ ((front ++ slashes).filter isKept).getLast?, isEdge c = false) := by
  cases slashes with
  | nil =>
    rw [List.append_nil] at hu ⊢
    obtain ⟨edges, hedges, hfront⟩ := exists_edges front
    obtain ⟨text, hcontinues⟩ := continues_of_edges hu hspecial hfile hedges hfront
    refine ⟨text, [], edges, hcontinues, edges_eq_nil_iff ?_ hedges hfront⟩
    intro hempty
    obtain ⟨rest, hcut, -⟩ := exists_cutScheme?_of_parse hu hspecial hfile
    rw [hempty] at hcut
    cases hcut
  | cons c slashes =>
    obtain ⟨rfl, hothers⟩ := List.forall_mem_cons.1 hslashes
    obtain ⟨text, slashes', hcontinues⟩ := continues_of_slashes hu hothers hspecial hfile
    refine ⟨text, slashes', [], hcontinues, iff_of_true rfl fun c hc => ?_⟩
    have hkept : isKept '/' = true := by decide
    rw [List.filter_append, List.filter_cons_of_pos hkept,
      List.getLast?_append_of_ne_nil _ (List.cons_ne_nil _ _)] at hc
    have hmem := List.mem_of_getLast? hc
    rw [← List.filter_cons_of_pos hkept] at hmem
    rw [hslashes c (List.mem_filter.1 hmem).1]
    decide

/-- Whatever stands after a slash in place of the slashes at the end of an address: it leads to the same
place. -/
theorem SameAuthority.of_parse [Idna] (hu : parse (front ++ slashes) = .ok u)
    (hslashes : ∀ c ∈ slashes, c = '/') (hspecial : isSpecial u.scheme = true)
    (hfile : u.scheme ≠ fileScheme) (hv : parse (front ++ '/' :: more) = .ok v) :
    SameAuthority u v := by
  obtain ⟨text, slashes', edges, hcontinues, -⟩ := exists_continues hu hslashes hspecial hfile
  rw [hcontinues.parse_eq] at hv
  have hread := hcontinues.read
  rcases slashes' with _ | ⟨c, slashes'⟩
  · rw [List.append_nil] at hread
    exact sameAuthority_of_edges hspecial hcontinues.all_edges hread hv
  · obtain rfl : c = '/' := hcontinues.all_slashes c (by simp)
    obtain rfl : edges = [] := hcontinues.nil_or_nil.resolve_left (by simp)
    rw [List.append_nil] at hv
    exact sameAuthority_of_slash hread hv

/-! ## Path, query and fragment of an address that goes on -/

/-- Path, query and fragment have been read from what follows an authority. -/
structure EndsIn (u : Url) (tail : List Char) : Prop where
  path_eq : u.path = readPath true (cutTail true tail).1
  query_eq : (u.query, u.fragment) = (cutTail true tail).2

theorem endsIn_of_readHosted [Idna] (hspecial : isSpecial scheme = true)
    (h : readHosted scheme text = .ok u) : u.EndsIn (cutAuthority true text).2 := by
  obtain ⟨user, host, port, left, hread, rfl⟩ := readHosted_eq_ok_iff.1 h
  rw [hspecial] at hread
  have hslash : '\\' ∉ (cutAuthority true text).1 := fun hmem =>
    absurd (List.mem_takeWhile_imp (show '\\' ∈ text.takeWhile (!endsAuthority true ·) from hmem))
      (by decide)
  obtain rfl := left_eq_nil_of_readAuthority hspecial hslash hread
  rw [hspecial]
  exact ⟨rfl, rfl⟩

/-- Without query and fragment, what follows the authority is all path. -/
theorem EndsIn.of_none (h : u.EndsIn text) (hquery : u.query = none) (hfragment : u.fragment = none) :
    (∀ c ∈ text, endsPath c = false) ∧ u.path = readPath true text := by
  have htail := h.query_eq
  rw [hquery, hfragment] at htail
  have hall := not_endsPath_of_cutTail htail.symm
  refine ⟨hall, ?_⟩
  rw [h.path_eq, cutTail_of_not_endsPath hall]

theorem EndsIn.of_not_endsPath (h : u.EndsIn text) (hall : ∀ c ∈ text, endsPath c = false) :
    u.path = readPath true text ∧ u.query = none ∧ u.fragment = none := by
  have htail := h.query_eq
  rw [cutTail_of_not_endsPath hall, Prod.mk.injEq] at htail
  refine ⟨?_, htail⟩
  rw [h.path_eq, cutTail_of_not_endsPath hall]

namespace Continues

variable [Idna] (h : u.Continues front text slashes edges)

include h

theorem endsIn (hspecial : isSpecial u.scheme = true) :
    u.EndsIn ((cutAuthority true text).2 ++ slashes) := by
  have hends := endsIn_of_readHosted hspecial h.read
  rcases slashes with _ | ⟨c, slashes⟩
  · rw [List.append_nil] at hends ⊢
    exact hends
  · obtain rfl : c = '/' := h.all_slashes c (by simp)
    rw [cutAuthority_slash] at hends
    exact hends

/-- With controls and blanks in between, there has to be a path already. -/
theorem endsIn_more (hspecial : isSpecial u.scheme = true) (hv : parse (front ++ '/' :: more) = .ok v) :
    v.EndsIn ((cutAuthority true text).2 ++ edges ++ '/' :: cleanedBack more) ∧
      ((cutAuthority true text).2 = [] → edges = []) := by
  rw [h.parse_eq] at hv
  have hends := endsIn_of_readHosted hspecial hv
  rw [cutAuthority_slash] at hends
  by_cases htext : (cutAuthority true text).2 = []
  · -- they would be part of the authority
    have hnone : edges = [] := by
      by_contra hnone
      exact readHosted_edges_ne_ok hspecial htext hnone h.all_edges _ hv
    rw [hnone, List.append_nil] at hends ⊢
    exact ⟨hends, fun _ => rfl⟩
  · rw [cutAuthority_append htext] at hends
    exact ⟨hends, fun hnil => absurd hnil htext⟩

theorem exists_parse (hspecial : isSpecial u.scheme = true) (hnone : edges = []) (more : List Char) :
    ∃ v, parse (front ++ '/' :: more) = .ok v := by
  obtain ⟨user, host, port, left, hread, -⟩ := readHosted_eq_ok_iff.1 h.read
  have hslash (front more : List Char) : (!(front ++ '/' :: more).isEmpty) = true := by simp
  -- what ends the authority has no part in it, so the slash may take its place
  have hfollowed : readAuthority u.scheme (cutAuthority true text).1 true =
      .ok (user, host, port, left) := by
    rw [hspecial] at hread
    rcases slashes with _ | ⟨c, slashes⟩
    · rw [List.append_nil] at hread
      cases hends : (cutAuthority true text).2 with
      | nil =>
        rw [hends] at hread
        exact readAuthority_followed hspecial hread
      | cons d rest =>
        rw [hends] at hread
        exact hread
    · obtain rfl : c = '/' := h.all_slashes c (by simp)
      rwa [cutAuthority_slash, hslash] at hread
  refine ⟨_, (h.parse_eq more).trans (readHosted_eq_ok_iff.2 ⟨user, host, port, left, ?_, rfl⟩)⟩
  rwa [hspecial, hnone, List.append_nil, cutAuthority_slash, hslash]

/-- Without query and fragment, the path is all that can go on. -/
theorem path_of_none (hspecial : isSpecial u.scheme = true) (hquery : u.query = none)
    (hfragment : u.fragment = none) :
    IsRooted (cutAuthority true text).2 ∧ (∀ c ∈ (cutAuthority true text).2, endsPath c = false) ∧
      u.path = readPath true ((cutAuthority true text).2 ++ slashes) := by
  obtain ⟨hall, hpath⟩ := (h.endsIn hspecial).of_none hquery hfragment
  have htail : ∀ c ∈ (cutAuthority true text).2, endsPath c = false := fun c hc =>
    hall c (List.mem_append_left _ hc)
  refine ⟨fun c hc => ?_, htail, hpath⟩
  have hends := endsAuthority_of_head? true text c hc
  have hpath := htail c (List.mem_of_head? hc)
  simp only [endsPath, endsAuthority, Bool.or_eq_true, Bool.and_eq_true, Bool.or_eq_false_iff,
    decide_eq_true_eq, decide_eq_false_iff_not] at hends hpath
  grind

/-- Names go behind the path. -/
theorem write_path_of_names (hspecial : isSpecial u.scheme = true) (hquery : u.query = none)
    (hfragment : u.fragment = none) (hmore : IsNames more) (hv : parse (front ++ '/' :: more) = .ok v) :
    v.path.write = writeDirectory ((cutAuthority true text).2 ++ edges) ++ '/' :: more ∧
      v.query = none ∧ v.fragment = none ∧ ((cutAuthority true text).2 = [] → edges = []) := by
  obtain ⟨hrooted, htail, -⟩ := h.path_of_none hspecial hquery hfragment
  obtain ⟨hends, hnone⟩ := h.endsIn_more hspecial hv
  rw [hmore.cleanedBack_eq] at hends
  have hrooted' : IsRooted ((cutAuthority true text).2 ++ edges) := by
    cases htext : (cutAuthority true text).2 with
    | nil =>
      rw [hnone htext]
      simp [IsRooted]
    | cons c rest =>
      rw [htext] at hrooted
      exact hrooted
  have hall : ∀ c ∈ (cutAuthority true text).2 ++ edges ++ '/' :: more, endsPath c = false := by
    intro c hc
    rcases List.mem_append.1 hc with hc | hc
    · rcases List.mem_append.1 hc with hc | hc
      · exact htail c hc
      · have hedge := of_isEdge (p := (!endsPath ·)) (h.all_edges c hc) (by decide)
        simpa using hedge
    · rcases List.mem_cons.1 hc with rfl | hc
      · rfl
      · exact (of_keptInPath (hmore.kept c hc).1).2
  obtain ⟨hpath, hnoQuery, hnoFragment⟩ := hends.of_not_endsPath hall
  rw [hpath, write_readPath_slash hrooted' hmore]
  exact ⟨rfl, hnoQuery, hnoFragment, hnone⟩

end Continues

end ActionBook.Url
