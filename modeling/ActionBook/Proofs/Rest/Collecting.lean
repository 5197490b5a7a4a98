import ActionBook.Proofs.Http.Receiving
import ActionBook.Proofs.Json.Tree
import ActionBook.Proofs.Text.Replacing
import ActionBook.Rest.Response
import Mathlib.Data.List.Induction

/-!
# `Rest.Collecting`: what becomes of the headers of a response

The headers of a response become an object with one member for each name. Its member lists all values
that came under the name, in their order (`Keeps`), so no value gets lost, however the names are mixed
(`headers_kept`). What stands under a name is an array at all times: there is never an entry that gives
way to a value.
-/

namespace ActionBook

/-- An array takes one more item. -/
theorem JsonValue.push?_arr (items : List JsonValue) (value : JsonValue) :
    (arr items).push? value = some (arr (items ++ [value])) := by
  refine congrArg some (JsonValue.eq_of_tree_eq ?_)
  show Json.arr (items.map tree ++ [value.tree]) = Json.arr ((items ++ [value]).map tree)
  rw [List.map_append, List.map_singleton]

namespace Rest

open Text (Octets)

variable {headers others : List (String × Octets)} {lists : List (String × List String)}
  {name : String}

/-! ## Values by name -/

/-- The values under a name, in order. -/
def valuesUnder (name : String) (headers : List (String × Octets)) : List Octets :=
  (headers.filter fun h => h.1 = name).map Prod.snd

theorem valuesUnder_append (name : String) (headers others : List (String × Octets)) :
    valuesUnder name (headers ++ others) = valuesUnder name headers ++ valuesUnder name others := by
  rw [valuesUnder, List.filter_append, List.map_append, valuesUnder, valuesUnder]

theorem valuesUnder_eq_nil_iff : valuesUnder name headers = [] ↔ name ∉ headers.map Prod.fst := by
  rw [valuesUnder, List.map_eq_nil_iff, List.filter_eq_nil_iff, List.mem_map]
  simp only [decide_eq_true_eq, not_exists, not_and]

theorem valuesUnder_singleton_self (name : String) (value : Octets) :
    valuesUnder name [(name, value)] = [value] := by
  simp [valuesUnder]

theorem valuesUnder_singleton_of_ne {other : String} (h : other ≠ name) (value : Octets) :
    valuesUnder name [(other, value)] = [] := by
  simp [valuesUnder, h]

/-- The lists keep what some headers say: there is one for each name, with a text for each of its
values. -/
structure Keeps (headers : List (String × Octets)) (lists : List (String × List String)) : Prop where
  nodup : (lists.map Prod.fst).Nodup
  mem_iff : ∀ name, name ∈ lists.map Prod.fst ↔ name ∈ headers.map Prod.fst
  texts : ∀ l ∈ lists, List.Forall₂ (fun value text => Text.Replaces value text.toList)
    (valuesUnder l.1 headers) l.2
  /-- All lists together have as many texts as there are headers. -/
  count : (lists.flatMap Prod.snd).length = headers.length

theorem keeps_nil : Keeps [] [] where
  nodup := List.nodup_nil
  mem_iff _ := Iff.rfl
  texts := nofun
  count := rfl

theorem replaces_lossyText (value : Octets) : Text.Replaces value (lossyText value).toList := by
  rw [lossyText, String.toList_ofList]
  exact Text.replaces_iff.2 rfl

/-- A header of a new name gets a list of its own. -/
theorem Keeps.new (h : Keeps headers lists) (hnew : name ∉ lists.map Prod.fst) (value : Octets) :
    Keeps (headers ++ [(name, value)]) (lists ++ [(name, [lossyText value])]) where
  nodup := by
    rw [List.map_append, List.map_singleton, ← List.concat_eq_append]
    exact h.nodup.concat hnew
  mem_iff other := by
    rw [List.map_append, List.map_append, List.mem_append, List.mem_append, h.mem_iff]
    rfl
  texts l hl := by
    rw [valuesUnder_append]
    rcases List.mem_append.1 hl with hl | hl
    · have hne : name ≠ l.1 := fun heq => hnew (heq ▸ List.mem_map_of_mem hl)
      rw [valuesUnder_singleton_of_ne hne, List.append_nil]
      exact h.texts l hl
    · obtain rfl := List.mem_singleton.1 hl
      rw [valuesUnder_eq_nil_iff.2 fun hmem => hnew ((h.mem_iff name).2 hmem),
        valuesUnder_singleton_self]
      exact .cons (replaces_lossyText value) .nil
  count := by
    rw [List.flatMap_append, List.length_append, h.count, List.length_append]
    rfl

/-- The other lists are under other names. -/
theorem Keeps.not_mem {before after : List (String × List String)} {texts : List String}
    (h : Keeps headers (before ++ (name, texts) :: after)) :
    name ∉ (before ++ after).map Prod.fst := by
  have hnodup := h.nodup
  rw [List.map_append, List.map_cons] at hnodup
  rw [List.map_append]
  exact (List.nodup_cons.1 (List.nodup_middle.1 hnodup)).1

/-- A header of a known name goes to the end of its list. -/
theorem Keeps.more {before after : List (String × List String)} {texts : List String}
    (h : Keeps headers (before ++ (name, texts) :: after)) (value : Octets) :
    Keeps (headers ++ [(name, value)]) (before ++ (name, texts ++ [lossyText value]) :: after) where
  nodup := by simpa using h.nodup
  mem_iff other := by
    have hname : name ∈ headers.map Prod.fst := (h.mem_iff name).1 (by simp)
    have hnames := h.mem_iff other
    simp only [List.map_append, List.map_cons, List.mem_append, List.mem_cons] at hnames ⊢
    rw [hnames]
    refine ⟨.inl, Or.rec id ?_⟩
    rintro (rfl | hnone)
    · exact hname
    · cases hnone
  texts l hl := by
    rw [valuesUnder_append]
    have hkept {l : String × List String} (hl : l ∈ before ++ after) :
        List.Forall₂ (fun value text => Text.Replaces value text.toList)
          (valuesUnder l.1 headers ++ valuesUnder l.1 [(name, value)]) l.2 := by
      have hne : name ≠ l.1 := fun heq => h.not_mem (heq ▸ List.mem_map_of_mem hl)
      have hmem : l ∈ before ++ (name, texts) :: after :=
        List.mem_append.2 ((List.mem_append.1 hl).imp_right (List.mem_cons_of_mem _))
      rw [valuesUnder_singleton_of_ne hne, List.append_nil]
      exact h.texts l hmem
    rcases List.mem_append.1 hl with hl | hl
    · exact hkept (List.mem_append_left _ hl)
    · rcases List.mem_cons.1 hl with rfl | hl
      · rw [valuesUnder_singleton_self]
        refine List.rel_append (h.texts (name, texts) (by simp)) ?_
        exact .cons (replaces_lossyText value) .nil
      · exact hkept (List.mem_append_right _ hl)
  count := by
    have hcount := h.count
    simp only [List.flatMap_append, List.flatMap_cons, List.length_append, List.length_singleton]
      at hcount ⊢
    omega

theorem Keeps.texts_eq (h : Keeps headers lists) {l : String × List String} (hl : l ∈ lists) :
    l.2 = (valuesUnder l.1 headers).map lossyText := by
  obtain ⟨name, texts⟩ := l
  have htexts : List.Forall₂ (fun value text => Text.Replaces value text.toList)
    (valuesUnder name headers) texts := h.texts _ hl
  show texts = (valuesUnder name headers).map lossyText
  clear hl
  generalize valuesUnder name headers = values at htexts ⊢
  induction htexts with
  | nil => rfl
  | cons hfirst _ ih =>
    rw [List.map_cons, lossyText, ← Text.replaces_iff.1 hfirst, String.ofList_toList, ← ih]

/-- There is one way to keep headers, up to the order of the names; and it matters only what came under
each name. -/
theorem Keeps.perm {lists' : List (String × List String)} (h : Keeps headers lists)
    (h' : Keeps others lists') (hsame : ∀ name, valuesUnder name others = valuesUnder name headers) :
    lists'.Perm lists := by
  have hnames (name : String) : name ∈ lists'.map Prod.fst ↔ name ∈ lists.map Prod.fst := by
    rw [h.mem_iff, h'.mem_iff, ← not_iff_not, ← valuesUnder_eq_nil_iff, ← valuesUnder_eq_nil_iff, hsame]
  refine (List.perm_ext_iff_of_nodup (.of_map _ h'.nodup) (.of_map _ h.nodup)).2 fun l => ?_
  constructor
  · intro hl
    obtain ⟨o, ho, hname⟩ := List.mem_map.1 ((hnames l.1).1 (List.mem_map_of_mem hl))
    have hlists : o.2 = l.2 := by rw [h.texts_eq ho, h'.texts_eq hl, hname, hsame]
    rwa [← Prod.ext hname hlists]
  · intro hl
    obtain ⟨o, ho, hname⟩ := List.mem_map.1 ((hnames l.1).2 (List.mem_map_of_mem hl))
    have hlists : o.2 = l.2 := by rw [h'.texts_eq ho, h.texts_eq hl, hname, hsame]
    rwa [← Prod.ext hname hlists]

/-! ## Entries -/

/-- A list as an entry: the array of its texts. -/
def entryOf (l : String × List String) : String × JsonValue := (l.1, .arr (l.2.map .str))

theorem addValue_of_not_mem {members : List (String × JsonValue)} (h : name ∉ members.map Prod.fst)
    (value : JsonValue) : addValue members name value = members ++ [(name, .arr [value])] := by
  induction members with
  | nil => rw [addValue, JsonValue.push?_arr, Option.getD_some, List.nil_append, List.nil_append]
  | cons m members ih =>
    rw [List.map_cons, List.mem_cons, not_or] at h
    rw [addValue, if_neg (Ne.symm h.1), ih h.2, List.cons_append]

theorem addValue_append {before : List (String × JsonValue)} (h : name ∉ before.map Prod.fst)
    (entry : JsonValue) (after : List (String × JsonValue)) (value : JsonValue) :
    addValue (before ++ (name, entry) :: after) name value =
      before ++ (name, (entry.push? value).getD value) :: after := by
  induction before with
  | nil => rw [List.nil_append, addValue, if_pos rfl, List.nil_append]
  | cons m before ih =>
    rw [List.map_cons, List.mem_cons, not_or] at h
    rw [List.cons_append, addValue, if_neg (Ne.symm h.1), ih h.2, List.cons_append]

/-- One more header is kept with the others. -/
theorem Keeps.exists_addValue (h : Keeps headers lists) (name : String) (value : Octets) :
    ∃ lists', addValue (lists.map entryOf) name (.str (lossyText value)) = lists'.map entryOf ∧
      Keeps (headers ++ [(name, value)]) lists' := by
  have hnames (lists : List (String × List String)) :
      (lists.map entryOf).map Prod.fst = lists.map Prod.fst := List.map_map
  by_cases hname : name ∈ lists.map Prod.fst
  · obtain ⟨⟨other, texts⟩, hl, rfl⟩ := List.mem_map.1 hname
    obtain ⟨before, after, rfl⟩ := List.append_of_mem hl
    refine ⟨_, ?_, h.more value⟩
    have hbefore : other ∉ (before.map entryOf).map Prod.fst := by
      rw [hnames]
      intro hmem
      refine h.not_mem ?_
      rw [List.map_append]
      exact List.mem_append_left _ hmem
    rw [List.map_append, List.map_cons, List.map_append, List.map_cons]
    refine (addValue_append hbefore _ _ _).trans ?_
    rw [JsonValue.push?_arr, Option.getD_some, entryOf, List.map_append]
    rfl
  · refine ⟨_, ?_, h.new hname value⟩
    rw [addValue_of_not_mem (by rwa [hnames]), List.map_append]
    rfl

/-- All headers are kept, each in the list of its name. -/
theorem exists_keeps_grouped (headers : List (String × Octets)) :
    ∃ lists, grouped headers = lists.map entryOf ∧ Keeps headers lists := by
  induction headers using List.reverseRecOn with
  | nil => exact ⟨[], rfl, keeps_nil⟩
  | append_singleton headers header ih =>
    obtain ⟨lists, hgrouped, hkeeps⟩ := ih
    obtain ⟨lists', hlists', hkeeps'⟩ := hkeeps.exists_addValue header.1 header.2
    refine ⟨lists', ?_, hkeeps'⟩
    rw [← hlists', ← hgrouped, grouped, List.foldl_append]
    rfl

/-! ## Objects -/

theorem headersValue_of_grouped (h : grouped headers = lists.map entryOf) :
    (headersValue headers).tree =
      .obj (Json.sortMembers (lists.map fun l => (l.1, .arr (l.2.map .str)))) := by
  show Json.obj (Json.sortMembers ((grouped headers).map fun m => (m.1, m.2.tree))) = _
  rw [h, List.map_map]
  refine congrArg (fun members => Json.obj (Json.sortMembers members)) (List.map_congr_left ?_)
  intro l _
  exact congrArg (fun items => (l.1, Json.arr items)) List.map_map

/-- Nothing is lost of the headers of a response, which arrive with their names in lower case: the result
has one member for each name, the array of all its values in order. The entries are arrays all along. And
it does not matter in which order the names are visited. -/
theorem headers_kept (r : Http.Response) (sent : SentRequest) :
    (∃ (lists : List (String × List String)) (members : List (String × Json)),
      Keeps r.normalised.headers lists ∧ (result r.normalised sent).headers.tree = .obj members ∧
      members.Perm (lists.map fun l => (l.1, .arr (l.2.map .str)))) ∧
    (∀ before after, r.normalised.headers = before ++ after →
      ∀ entry ∈ grouped before, ∀ value, (entry.2.push? value).isSome = true) ∧
    (∀ visited, (∀ name, valuesUnder name visited = valuesUnder name r.normalised.headers) →
      headersValue visited = (result r.normalised sent).headers) ∧
    ∀ method arrival, r.received method = some arrival →
      (result arrival.response sent).headers = (result r.normalised sent).headers := by
  obtain ⟨lists, hgrouped, hkeeps⟩ := exists_keeps_grouped r.normalised.headers
  have hnames (lists : List (String × List String)) :
      Json.names (lists.map fun l => (l.1, .arr (l.2.map .str))) = lists.map Prod.fst := List.map_map
  have hdistinct : (Json.names (lists.map fun l => (l.1, .arr (l.2.map .str)))).Nodup :=
    (hnames lists).symm ▸ hkeeps.nodup
  refine ⟨⟨lists, _, hkeeps, headersValue_of_grouped hgrouped, Json.sortMembers_perm hdistinct⟩,
    fun before _ _ entry hentry value => ?_, fun visited hvisited => ?_, fun method arrival harrival => ?_⟩
  · obtain ⟨lists, hbefore, -⟩ := exists_keeps_grouped before
    rw [hbefore] at hentry
    obtain ⟨l, -, rfl⟩ := List.mem_map.1 hentry
    rw [entryOf, JsonValue.push?_arr]
    rfl
  · obtain ⟨lists', hgrouped', hkeeps'⟩ := exists_keeps_grouped visited
    refine JsonValue.eq_of_tree_eq ?_
    rw [headersValue_of_grouped hgrouped']
    refine Eq.trans ?_ (headersValue_of_grouped hgrouped).symm
    rw [Json.sortMembers_eq_of_perm hdistinct ((hkeeps.perm hkeeps' hvisited).symm.map _)]
  · exact congrArg headersValue (Http.of_received harrival).2

end Rest

end ActionBook
