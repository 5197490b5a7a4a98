import ActionBook.Proofs.Rest.Joining
import ActionBook.Proofs.Rest.Parameters

/-!
# `Rest.Extending`: a path behind a base

Since base and path are put together as texts, the path gets where it should only if the text of the base
ends with its path (`Extensible`). Then it makes that path longer and changes nothing else
(`Extends`); behind a query, for one, it becomes part of the query (`path_goes_into_query`).
-/

namespace ActionBook.Rest

open Url (SameAuthority IsNames)

/-! ## Paths -/

/-- Whether a character stands for itself everywhere. -/
def isUnreserved (c : Char) : Bool :=
  c.isAlphanum || c = '-' || c = '.' || c = '_' || c = '~'

/-- A path of unreserved characters and slashes in which no segment is dots, whatever slashes it begins
with. -/
structure IsPlainPath (path : List Char) : Prop where
  nonempty : path ≠ []
  unreserved : ∀ c ∈ path, isUnreserved c = true ∨ c = '/'
  not_dots : ∀ s ∈ Text.splitOn '/' (withoutLeadingSlashes path), s ≠ ['.'] ∧ s ≠ ['.', '.']

theorem isPlainPath_iff {path : List Char} :
    IsPlainPath path ↔ path ≠ [] ∧ (path.all fun c => isUnreserved c || c = '/') = true ∧
      ((Text.splitOn '/' (withoutLeadingSlashes path)).all fun s => s ≠ ['.'] && s ≠ ['.', '.']) =
        true := by
  simp only [List.all_eq_true, Bool.or_eq_true, Bool.and_eq_true, decide_eq_true_eq]
  exact ⟨fun h => ⟨h.nonempty, h.unreserved, h.not_dots⟩, fun h => ⟨h.1, h.2.1, h.2.2⟩⟩

instance (path : List Char) : Decidable (IsPlainPath path) := decidable_of_iff _ isPlainPath_iff.symm

theorem of_isUnreserved {c : Char} (h : isUnreserved c = true) :
    c ≠ '%' ∧ c ≠ '\\' ∧ Url.keptInPath c = true := by
  have hascii : c.toNat < 0x80 := by
    simp only [isUnreserved, Bool.or_eq_true, decide_eq_true_eq, Text.isAlphanum_iff] at h
    rcases h with (((h | rfl) | rfl) | rfl) | rfl
    · omega
    all_goals decide
  exact Text.of_toNat_lt
    (p := fun c => isUnreserved c = true → c ≠ '%' ∧ c ≠ '\\' ∧ Url.keptInPath c = true) hascii
    (by decide +kernel) h

theorem IsPlainPath.isNames {path : List Char} (h : IsPlainPath path) :
    IsNames (withoutLeadingSlashes path) where
  kept := by
    intro c hc
    rcases h.unreserved c ((List.dropWhile_suffix _).mem hc) with hc | rfl
    · exact ⟨(of_isUnreserved hc).2.2, (of_isUnreserved hc).2.1⟩
    · decide
  not_dots := by
    intro s hs
    refine Url.isDots_eq_false (fun c hc => ?_) (h.not_dots s hs)
    obtain ⟨hslash, hmem⟩ := Text.of_mem_splitOn hs hc
    have hunreserved := (h.unreserved c ((List.dropWhile_suffix _).mem hmem)).resolve_right hslash
    exact (of_isUnreserved hunreserved).1

/-! ## Bases -/

/-- A path can be put behind a base that ends with its path: without a query, a fragment, or a blank or
control that would be cut off, tabs and line breaks apart. With one slash at its end, that path does not
end with two. -/
structure Extensible [Url.Idna] (base : List Char) (b : Url) : Prop where
  query : b.query = none
  fragment : b.fragment = none
  ending : ∀ c ∈ (base.filter Url.isKept).getLast?, Url.isEdge c = false
  slash : ∀ s, Url.parse (withoutTrailingSlashes base ++ ['/']) = .ok s →
    ¬ ['/', '/'] <:+ s.path.write

/-- The address `u` is `b` with a longer path, and with more pairs in its query. -/
structure Extends (b u : Url) (path : List Char) (query : List Property) : Prop where
  authority : SameAuthority b u
  fragment : u.fragment = b.fragment
  path_eq : u.path.write = withoutTrailingSlashes b.path.write ++ '/' :: withoutLeadingSlashes path
  pairs_eq : Url.pairs u.query = Url.pairs b.query ++
    (query.filter fun p => Text.trim p.key.toList ≠ []).map fun p => (p.key, p.value)

theorem withoutTrailingSlashes_append {slashes : List Char} (h : ∀ c ∈ slashes, c = '/')
    (text : List Char) : withoutTrailingSlashes (text ++ slashes) = withoutTrailingSlashes text := by
  rw [withoutTrailingSlashes, List.reverse_append, List.dropWhile_append_of_pos]
  · rfl
  · intro c hc
    exact decide_eq_true (h c (List.mem_reverse.1 hc))

theorem length_withoutTrailingSlashes_le (text : List Char) :
    (withoutTrailingSlashes text).length ≤ text.length := by
  obtain ⟨slashes, -, htext⟩ := exists_withoutTrailingSlashes text
  have hlength := congrArg List.length htext
  rw [List.length_append] at hlength
  omega

theorem withoutTrailingSlashes_eq_self_iff {text : List Char} :
    withoutTrailingSlashes text = text ↔ ¬ ['/'] <:+ text := by
  constructor
  · rintro htext ⟨front, rfl⟩
    rw [withoutTrailingSlashes_append (by simp)] at htext
    have hle := length_withoutTrailingSlashes_le front
    rw [htext, List.length_append, List.length_singleton] at hle
    omega
  · intro h
    obtain ⟨slashes, hslashes, htext⟩ := exists_withoutTrailingSlashes text
    rcases List.eq_nil_or_concat slashes with rfl | ⟨init, c, rfl⟩
    · rwa [List.append_nil] at htext
    · obtain rfl : c = '/' := hslashes c (by simp)
      refine absurd ⟨withoutTrailingSlashes text ++ init, ?_⟩ h
      rwa [List.append_assoc, ← List.concat_eq_append]

theorem withoutTrailingSlashes_write_readPath {text slashes : List Char} (h : Url.IsRooted text)
    (hslashes : ∀ c ∈ slashes, c = '/') :
    withoutTrailingSlashes (Url.readPath true (text ++ slashes)).write =
      withoutTrailingSlashes (Url.writeDirectory text) := by
  rcases slashes with _ | ⟨c, slashes⟩
  · rw [List.append_nil]
    rcases Url.write_readPath_eq_or h with hwrite | hwrite
    · rw [hwrite]
    · rw [hwrite, withoutTrailingSlashes_append (by simp)]
  · obtain ⟨rfl, hothers⟩ := List.forall_mem_cons.1 hslashes
    rw [Url.write_readPath_slash h (.of_slashes hothers), withoutTrailingSlashes_append hslashes]

/-! ## A path behind a base -/

section

variable {b v : Url} {front text slashes edges more : List Char}

/-- A path is put behind the one of the base if nothing would be cut off and that one does not end with
an empty segment. -/
theorem path_eq_iff [Url.Idna] (h : b.Continues front text slashes edges) (hspecial : Url.isSpecial b.scheme = true)
    (hquery : b.query = none) (hfragment : b.fragment = none) (hmore : IsNames more)
    (hv : Url.parse (front ++ '/' :: more) = .ok v) :
    v.path.write = withoutTrailingSlashes b.path.write ++ '/' :: more ↔
      edges = [] ∧ ¬ ['/'] <:+ Url.writeDirectory (Url.cutAuthority true text).2 := by
  obtain ⟨hrooted, -, hpath⟩ := h.path_of_none hspecial hquery hfragment
  obtain ⟨hwrite, -, -, hnone⟩ := h.write_path_of_names hspecial hquery hfragment hmore hv
  rw [hwrite, hpath, withoutTrailingSlashes_write_readPath hrooted h.all_slashes,
    List.append_left_inj, ← withoutTrailingSlashes_eq_self_iff]
  by_cases hedges : edges = []
  · rw [hedges, List.append_nil, and_iff_right rfl, eq_comm]
  · -- with them the path is longer than the one of the base has been
    refine iff_of_false (fun heq => ?_) fun hboth => hedges hboth.1
    have htail := mt hnone hedges
    have hlonger := Url.length_writeDirectory_lt htail hedges h.all_edges
    have hshorter := length_withoutTrailingSlashes_le
      (Url.writeDirectory (Url.cutAuthority true text).2)
    rw [heq] at hlonger
    omega

/-- Behind a query or a fragment, there is no path any more. -/
theorem path_eq_of_tail [Url.Idna] (h : b.Continues front text slashes edges)
    (hspecial : Url.isSpecial b.scheme = true) (htail : ¬ (b.query = none ∧ b.fragment = none))
    (hv : Url.parse (front ++ '/' :: more) = .ok v) : v.path = b.path := by
  have hb := h.endsIn hspecial
  obtain ⟨hends, -⟩ := h.endsIn_more hspecial hv
  -- the sign of the query or the fragment, since it is not among the slashes at the end
  obtain ⟨c, hc, hsign⟩ : ∃ c ∈ (Url.cutAuthority true text).2, Url.endsPath c = true := by
    by_contra hno
    simp only [not_exists, not_and, Bool.not_eq_true] at hno
    refine htail (hb.of_not_endsPath fun c hc => ?_).2
    rcases List.mem_append.1 hc with hc | hc
    · exact hno c hc
    · rw [h.all_slashes c hc]
      rfl
  rw [hends.path_eq, hb.path_eq, List.append_assoc, Url.cutTail_append_fst hc hsign,
    Url.cutTail_append_fst hc hsign]

/-- What makes a base extensible, in terms of how its text goes on. -/
theorem extensible_iff [Url.Idna] {base : List Char}
    (h : b.Continues (withoutTrailingSlashes base) text slashes edges)
    (hspecial : Url.isSpecial b.scheme = true)
    (hedges : edges = [] ↔ ∀ c ∈ (base.filter Url.isKept).getLast?, Url.isEdge c = false) :
    Extensible base b ↔ (b.query = none ∧ b.fragment = none) ∧ edges = [] ∧
      ¬ ['/'] <:+ Url.writeDirectory (Url.cutAuthority true text).2 := by
  have hslash (hquery : b.query = none) (hfragment : b.fragment = none) (hnone : edges = [])
      {s : Url} (hs : Url.parse (withoutTrailingSlashes base ++ ['/']) = .ok s) :
      ['/', '/'] <:+ s.path.write ↔
        ['/'] <:+ Url.writeDirectory (Url.cutAuthority true text).2 := by
    obtain ⟨hwrite, -⟩ :=
      h.write_path_of_names hspecial hquery hfragment (.of_slashes (by simp)) hs
    rw [hwrite, hnone, List.append_nil]
    refine exists_congr fun front => ?_
    show front ++ (['/'] ++ ['/']) = _ ↔ _
    rw [← List.append_assoc, List.append_left_inj]
  constructor
  · rintro ⟨hquery, hfragment, hending, hs⟩
    have hnone := hedges.2 hending
    obtain ⟨s, hparse⟩ := h.exists_parse hspecial hnone []
    exact ⟨⟨hquery, hfragment⟩, hnone, mt (hslash hquery hfragment hnone hparse).2 (hs s hparse)⟩
  · rintro ⟨⟨hquery, hfragment⟩, hnone, hdirectory⟩
    exact ⟨hquery, hfragment, hedges.1 hnone, fun s hparse =>
      mt (hslash hquery hfragment hnone hparse).1 hdirectory⟩

end

theorem exists_not_slash {path : List Char} (h : ∃ c ∈ path, c ≠ '/') :
    ∃ c ∈ withoutLeadingSlashes path, c ≠ '/' := by
  obtain ⟨c, hc, hslash⟩ := h
  rw [← List.takeWhile_append_dropWhile (p := (· = '/')) (l := path)] at hc
  rcases List.mem_append.1 hc with hc | hc
  · have hall := List.mem_takeWhile_imp hc
    exact absurd (of_decide_eq_true hall) hslash
  · exact ⟨c, hc, hslash⟩

/-- A path behind an extensible base makes the path of the address longer and changes nothing else, and
the pairs of the query come after those of the base. Behind any other base, no path that is more than
slashes gets where it should. -/
theorem path_extends_base [Url.Idna] {base path : String} {b : Url} (hbase : Url.parse base.toList = .ok b)
    (hscheme : b.scheme ∈ Http.spokenSchemes) (hpath : IsPlainPath path.toList)
    (query : List Property) :
    (Extensible base.toList b →
      ∃ u, url base path query = .ok u ∧ Extends b u path.toList query) ∧
    ((∃ c ∈ path.toList, c ≠ '/') → ∀ u, url base path query = .ok u →
      u.path.write =
        withoutTrailingSlashes b.path.write ++ '/' :: withoutLeadingSlashes path.toList →
      Extensible base.toList b) := by
  obtain ⟨hspecial, hfile⟩ := isSpecial_of_spoken hscheme
  obtain ⟨slashes, hslashes, hsplit⟩ := exists_withoutTrailingSlashes base.toList
  rw [← hsplit] at hbase
  obtain ⟨text, slashes', edges, hcontinues, hedges⟩ :=
    Url.exists_continues hbase hslashes hspecial hfile
  rw [hsplit] at hedges
  have hextensible := extensible_iff hcontinues hspecial hedges
  have hjoin : join base.toList path.toList =
      withoutTrailingSlashes base.toList ++ '/' :: withoutLeadingSlashes path.toList := by
    rw [join, if_neg (by simpa using hpath.nonempty)]
  constructor
  · intro h
    obtain ⟨⟨hquery, hfragment⟩, hnone, hdirectory⟩ := hextensible.1 h
    obtain ⟨joined, hparse⟩ :=
      hcontinues.exists_parse hspecial hnone (withoutLeadingSlashes path.toList)
    obtain ⟨-, hnoQuery, hnoFragment, -⟩ :=
      hcontinues.write_path_of_names hspecial hquery hfragment hpath.isNames hparse
    have hwrite := (path_eq_iff hcontinues hspecial hquery hfragment hpath.isNames hparse).2
      ⟨hnone, hdirectory⟩
    have hsame := SameAuthority.of_parse hbase hslashes hspecial hfile hparse
    rw [← hjoin] at hparse
    refine ⟨_, url_of_parse hparse query, ⟨?_, hnoFragment.trans hfragment.symm, hwrite, ?_⟩⟩
    · exact ⟨hsame.scheme, hsame.username, hsame.password, hsame.host, hsame.port⟩
    · rw [Url.pairs_appendPairs, namedPairs_eq, hnoQuery, hquery]
  · intro hnames u hu hwrite
    obtain ⟨joined, hparse, rfl⟩ := exists_parse_of_url hu
    rw [hjoin] at hparse
    by_cases htail : b.query = none ∧ b.fragment = none
    · exact hextensible.2 ⟨htail,
        (path_eq_iff hcontinues hspecial htail.1 htail.2 hpath.isNames hparse).1 hwrite⟩
    · -- what is left of the path of the base would have to be slashes
      obtain ⟨c, hc, hslash⟩ := exists_not_slash hnames
      obtain ⟨others, hothers, hpaths⟩ := exists_withoutTrailingSlashes b.path.write
      replace hwrite : joined.path.write = _ := hwrite
      rw [path_eq_of_tail hcontinues hspecial htail hparse] at hwrite
      have hmore := List.append_cancel_left (hpaths.trans hwrite)
      exact absurd (hothers c (by rw [hmore]; exact List.mem_cons_of_mem _ hc)) hslash

/-- A base with slashes at its end and a path with slashes at its front. -/
theorem path_extends_base_slashes :
    let base := "http://u:p@api.test:8080/v1//"
    let query : List Property := [⟨"q", "a b"⟩, ⟨" ", "left out"⟩]
    ∃ b, Url.parse base.toList = .ok b ∧ b.scheme ∈ Http.spokenSchemes ∧
      IsPlainPath "//users/~me".toList ∧ Extensible base.toList b ∧
      ∃ u, url base "//users/~me" query = .ok u ∧ Extends b u "//users/~me".toList query := by
  intro base query
  have hbase : Url.parse base.toList =
      .ok { scheme := ['h', 't', 't', 'p'], username := ['u'], password := some ['p'],
            host := some (.name "api.test".toList), port := some 8080,
            path := .segments [['v', '1'], [], []] } := by decide +kernel
  have hslash : Url.parse (withoutTrailingSlashes base.toList ++ ['/']) =
      .ok { scheme := ['h', 't', 't', 'p'], username := ['u'], password := some ['p'],
            host := some (.name "api.test".toList), port := some 8080,
            path := .segments [['v', '1'], []] } := by decide +kernel
  have hscheme : ['h', 't', 't', 'p'] ∈ Http.spokenSchemes := by decide
  have hpath : IsPlainPath "//users/~me".toList := by decide
  refine ⟨_, hbase, hscheme, hpath, ?extensible,
    (path_extends_base hbase hscheme hpath query).1 ?extensible⟩
  have hlast : (base.toList.filter Url.isKept).getLast? = some '/' := by decide
  refine ⟨rfl, rfl, fun c hc => ?_, fun s hs => ?_⟩
  · rw [hlast] at hc
    cases hc
    rfl
  · rw [hslash] at hs
    cases hs
    decide

/-- A path is put behind the query of the base and becomes part of it. -/
theorem path_goes_into_query :
    ∃ b u, Url.parse "http://api.test/v1?x=1".toList = .ok b ∧ b.scheme ∈ Http.spokenSchemes ∧
      IsPlainPath "/users".toList ∧ url "http://api.test/v1?x=1" "/users" [] = .ok u ∧
      u.path.write ≠
        withoutTrailingSlashes b.path.write ++ '/' :: withoutLeadingSlashes "/users".toList ∧
      u.path = b.path ∧ Url.pairs b.query = [("x", "1")] ∧ Url.pairs u.query = [("x", "1/users")] := by
  have hbase : Url.parse "http://api.test/v1?x=1".toList =
      .ok { scheme := ['h', 't', 't', 'p'], host := some (.name "api.test".toList),
            path := .segments [['v', '1']], query := some "x=1".toList } := by decide +kernel
  have hjoined : Url.parse (join "http://api.test/v1?x=1".toList "/users".toList) =
      .ok { scheme := ['h', 't', 't', 'p'], host := some (.name "api.test".toList),
            path := .segments [['v', '1']], query := some "x=1/users".toList } := by decide +kernel
  exact ⟨_, _, hbase, by decide, by decide, url_of_parse hjoined [], by decide +kernel, rfl,
    by decide +kernel, by decide +kernel⟩

end ActionBook.Rest
