import ActionBook.Proofs.Rest.Joining
import ActionBook.Proofs.Text.Trimming
import ActionBook.Proofs.Url.Form

/-!
# `Rest.Parameters`: query parameters in an address

The parameters that have a name are added to the query of the address and nothing else about it
changes. Who reads the query gets them as they were given, after those that were there before
(`parameters_come_back`).
-/

namespace ActionBook.Rest

theorem isBlankText_iff {text : String} : Text.isBlankText text ↔ Text.trim text.toList = [] := by
  rw [Text.trim_eq_nil_iff, Text.isBlankText, List.all_eq_true]

theorem namedPairs_eq (query : List Property) :
    namedPairs query =
      (query.filter fun p => Text.trim p.key.toList ≠ []).map fun p => (p.key, p.value) := by
  refine congrArg _ (List.filter_congr fun p _ => ?_)
  cases hblank : Text.isBlankText p.key with
  | true => simp [isBlankText_iff.1 hblank]
  | false =>
    have hnamed : Text.trim p.key.toList ≠ [] := by
      rw [Ne, ← isBlankText_iff, hblank]
      exact Bool.false_ne_true
    simp [hnamed]

/-- Whatever names and values are, the parameters that have a name come back from the query of the
address, in their order and after those of the address; nothing else about it changes, and without such
parameters nothing at all. What is added to the query are signs that stand for themselves in any. -/
theorem parameters_come_back [Url.Idna] {base path : String} {u : Url}
    (h : Url.parse (join base.toList path.toList) = .ok u) (query : List Property) :
    ∃ r, url base path query = .ok r ∧ r = { u with query := r.query } ∧
      Url.pairs r.query = Url.pairs u.query ++
        (query.filter fun p => Text.trim p.key.toList ≠ []).map (fun p => (p.key, p.value)) ∧
      (∃ added, r.query.getD [] = u.query.getD [] ++ added ∧ ∀ c ∈ added, Url.isPairSign c) ∧
      ((∀ p ∈ query, Text.trim p.key.toList = []) → r = u) := by
  refine ⟨_, url_of_parse h query, rfl, ?_, Url.exists_added _ _, fun hblank => ?_⟩
  · rw [Url.pairs_appendPairs, namedPairs_eq]
  · have hnone : namedPairs query = [] := by
      rw [namedPairs_eq, List.map_eq_nil_iff, List.filter_eq_nil_iff]
      intro p hp
      simp [hblank p hp]
    rw [hnone]
    rfl

/-- Parameters with every sign that means something in a query, behind one that ends with an open pair
and in front of a fragment. -/
theorem parameters_come_back_signs :
    let query : List Property := [⟨" a&=b ", "+%#ü\n"⟩, ⟨" ", "left out"⟩, ⟨"a", ""⟩, ⟨"a", "%41"⟩]
    ∃ u, Url.parse (join "http://api.test/v1?x=%F0&".toList "#top".toList) = .ok u ∧
      ∃ r, url "http://api.test/v1?x=%F0&" "#top" query = .ok r ∧ r = { u with query := r.query } ∧
        Url.pairs r.query = Url.pairs u.query ++
          (query.filter fun p => Text.trim p.key.toList ≠ []).map (fun p => (p.key, p.value)) ∧
        (∃ added, r.query.getD [] = u.query.getD [] ++ added ∧ ∀ c ∈ added, Url.isPairSign c) ∧
        ((∀ p ∈ query, Text.trim p.key.toList = []) → r = u) := by
  intro query
  have hparse : Url.parse (join "http://api.test/v1?x=%F0&".toList "#top".toList) =
      .ok { scheme := ['h', 't', 't', 'p'], host := some (.name "api.test".toList),
            path := .segments [['v', '1']], query := some "x=%F0&/".toList,
            fragment := some "top".toList } := by decide +kernel
  exact ⟨_, hparse, parameters_come_back hparse query⟩

end ActionBook.Rest
