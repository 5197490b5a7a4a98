import ActionBook.Proofs.Program.Outcome
import ActionBook.Proofs.Service.Seeding

/-!
# `Program.Cataloguing`: what is left of a catalogue

An entry of a catalogue that carries an id takes the place of an earlier one with this id. So what is
left of a catalogue, if each of its entries can be stored, are the entries that no later one replaces
(`lasting`): they are stored, they alone are, and each is found by its name
(`catalog_keeps_lasting`). All entries are left if none carries the id of another.
-/

namespace ActionBook

/-! ## Putting an action -/

namespace Store

variable {store : Store} {id : ActionId} {a : Action}

theorem putEntry_perm {entries : List (ActionId × Action)} (h : (entries.map Prod.fst).Nodup) :
    (putEntry id a entries).Perm ((entries.filter fun e => e.1 ≠ id) ++ [(id, a)]) := by
  induction entries with
  | nil => exact .refl _
  | cons e rest ih =>
    obtain ⟨i, b⟩ := e
    rw [List.map_cons, List.nodup_cons] at h
    rw [putEntry]
    split
    next hid =>
      subst hid
      have hrest : rest.filter (fun e => e.1 ≠ i) = rest := by
        refine List.filter_eq_self.2 fun e he => decide_eq_true fun heq => h.1 ?_
        exact List.mem_map.2 ⟨e, he, heq⟩
      rw [List.filter_cons_of_neg (by simp), hrest]
      exact (List.perm_append_singleton _ _).symm
    next hid =>
      rw [List.filter_cons_of_pos (by simpa using hid)]
      exact (ih h.2).cons (i, b)

/-- What is put takes the place of the action with its id. -/
theorem Consistent.perm_actions_put (h : store.Consistent) (id : ActionId) (a : Action) :
    (store.put id a).actions.Perm ((store.actions.filter fun b => b.id ≠ some id) ++ [a]) := by
  have hfilter : store.actions.filter (fun b => b.id ≠ some id) =
      (store.entries.filter fun e => e.1 ≠ id).map Prod.snd := by
    rw [actions, List.filter_map]
    refine congrArg (List.map Prod.snd) (List.filter_congr fun e he => ?_)
    simp [h.id (find?_eq_some_iff.2 he)]
  have hput : ((putEntry id a store.entries).map Prod.snd).Perm _ :=
    (putEntry_perm store.distinct).map Prod.snd
  rw [List.map_append] at hput
  rw [hfilter]
  exact hput

end Store

namespace Service

open Operation

variable {World : Type} {s : Service World} {actions before : List Action} {a saved : Action}
  {ledger middle final : Ledger}

/-! ## Entries that last -/

/-- The actions that no later one replaces: those without an id, and the last one with each id. -/
def lasting : List Action → List Action
  | [] => []
  | a :: rest =>
    if a.id.isSome ∧ rest.any (fun b => b.id = a.id) then lasting rest else a :: lasting rest

theorem lasting_sublist (actions : List Action) : (lasting actions).Sublist actions := by
  induction actions with
  | nil => exact .slnil
  | cons a rest ih =>
    rw [lasting]
    split
    · exact ih.cons a
    · exact ih.cons_cons a

/-- One more action replaces what carries its id, and comes after what is left. -/
theorem lasting_concat (before : List Action) (a : Action) :
    lasting (before ++ [a]) = (lasting before).filter (fun b => b.id = none ∨ b.id ≠ a.id) ++ [a] := by
  induction before with
  | nil => simp [lasting]
  | cons b rest ih =>
    have hmem : (rest ++ [a]).any (fun c => c.id = b.id) ↔
        rest.any (fun c => c.id = b.id) ∨ b.id = a.id := by
      simp [@eq_comm _ a.id]
    rw [List.cons_append, lasting, lasting, ih]
    by_cases hlater : b.id.isSome ∧ rest.any fun c => c.id = b.id
    · rw [if_pos hlater, if_pos ⟨hlater.1, hmem.2 (.inl hlater.2)⟩]
    rw [if_neg hlater]
    by_cases hsame : b.id.isSome ∧ b.id = a.id
    · have hdropped : ¬ (b.id = none ∨ b.id ≠ a.id) := by
        rw [not_or, not_not]
        exact ⟨Option.isSome_iff_ne_none.1 hsame.1, hsame.2⟩
      rw [if_pos ⟨hsame.1, hmem.2 (.inr hsame.2)⟩, List.filter_cons_of_neg (by simpa using hdropped)]
    · have hkept : b.id = none ∨ b.id ≠ a.id := by
        rw [← Option.not_isSome_iff_eq_none]
        exact Classical.not_and_iff_not_or_not.1 hsame
      have hnot : ¬ (b.id.isSome ∧ (rest ++ [a]).any fun c => c.id = b.id) := by
        rw [hmem, and_or_left, not_or]
        exact ⟨hlater, hsame⟩
      rw [if_neg hnot, List.filter_cons_of_pos (by simpa using hkept), List.cons_append]

/-- Actions none of which carries the id of another all last. -/
theorem lasting_eq_self (h : (actions.filterMap Action.id).Nodup) : lasting actions = actions := by
  induction actions with
  | nil => rfl
  | cons a rest ih =>
    rw [List.filterMap_cons] at h
    cases hid : a.id with
    | none =>
      rw [hid] at h
      rw [lasting, hid, if_neg (by simp), ih h]
    | some id =>
      rw [hid] at h
      obtain ⟨hnot, hrest⟩ := List.nodup_cons.1 h
      have hfirst : ¬ (a.id.isSome ∧ rest.any fun b => b.id = a.id) := by
        rintro ⟨-, hlater⟩
        obtain ⟨b, hb, hbid⟩ := List.any_eq_true.1 hlater
        exact hnot (List.mem_filterMap.2 ⟨b, hb, (of_decide_eq_true hbid).trans hid⟩)
      rw [lasting, if_neg hfirst, ih hrest]

/-! ## What is stored of them -/

/-- The new ids that some actions may need differ from each other and from those that the actions
carry. -/
structure NewIdsFor (s : Service World) (actions : List Action) : Prop where
  distinct : ∀ j k, j < k → k < actions.length → s.ids j ≠ s.ids k
  unlike : ∀ k < actions.length, ∀ a ∈ actions, a.id ≠ some (s.ids k)

/-- An action as it was given and as it is stored: under its own id, or one of the first new ones. -/
structure Kept (s : Service World) (issued : Nat) (a x : Action) : Prop where
  content : a.SameContent x
  id : a.id.isSome ∧ x.id = a.id ∨ a.id = none ∧ ∃ k < issued, x.id = some (s.ids k)

/-- The ledger after some actions have been stored in an empty store. -/
structure Catalogued (s : Service World) (actions : List Action) (final : Ledger) : Prop where
  answering : final.Answering
  consistent : final.store.Consistent
  issued : final.issued ≤ actions.length
  kept : ∃ stored, final.store.actions.Perm stored ∧
    List.Forall₂ (s.Kept final.issued) (lasting actions) stored

theorem NewIdsFor.of_append {after : List Action} (h : s.NewIdsFor (before ++ after)) :
    s.NewIdsFor before := by
  have hlength : before.length ≤ (before ++ after).length := by simp
  exact ⟨fun j k hjk hk => h.distinct j k hjk (hk.trans_le hlength),
    fun k hk a ha => h.unlike k (hk.trans_le hlength) a (List.mem_append_left _ ha)⟩

theorem Kept.mono {n m : Nat} {x : Action} (h : s.Kept n a x) (hle : n ≤ m) : s.Kept m a x :=
  ⟨h.content, h.id.imp_right fun ⟨hnone, k, hk, hid⟩ => ⟨hnone, k, hk.trans_le hle, hid⟩⟩

namespace Catalogued

/-- One more action is stored: what carries its id is replaced, in the store as in the list. -/
theorem concat (h : s.Catalogued before middle) (hnew : s.NewIdsFor (before ++ [a]))
    (hsave : s.save a middle = .ok saved final) : s.Catalogued (before ++ [a]) final := by
  obtain ⟨accepted, wrote⟩ := of_persist_eq_ok hsave
  have hissued : middle.issued ≤ final.issued := by
    rw [wrote.issued]
    split <;> omega
  have hlength : middle.issued < (before ++ [a]).length := by
    rw [List.length_append]
    exact Nat.lt_succ_of_le h.issued
  have hfinal : final.Answering := by
    have hafter := answering_after_save h.answering s a
    rwa [after, hsave] at hafter
  refine ⟨hfinal, wrote.consistent accepted h.consistent, ?issued, ?kept⟩
  case issued =>
    rw [wrote.issued]
    split <;> omega
  case kept =>
    obtain ⟨stored, hperm, hkept⟩ := h.kept
    -- an action stands in the way of the new one just if it came with the same id
    have hreplaced : ∀ b ∈ lasting before, ∀ x, s.Kept middle.issued b x →
        decide (b.id = none ∨ b.id ≠ a.id) = decide (x.id ≠ some (s.idFor middle a)) := by
      intro b hb x hx
      have hbmem : b ∈ before ++ [a] :=
        List.mem_append_left _ ((lasting_sublist before).subset hb)
      refine decide_eq_decide.2 ?_
      rcases hx.id with ⟨hsome, hid⟩ | ⟨hnone, k, hk, hid⟩
      · obtain ⟨i, hi⟩ := Option.isSome_iff_exists.1 hsome
        rw [hid, idFor, hi]
        cases haid : a.id with
        | some j => simp
        | none =>
          have hunlike := hnew.unlike _ hlength b hbmem
          simpa [hi] using hunlike
      · rw [hid, idFor]
        cases haid : a.id with
        | some j =>
          have hunlike := hnew.unlike k (hk.trans hlength) a (by simp)
          rw [haid] at hunlike
          simpa [hnone] using Ne.symm hunlike
        | none => simpa [hnone] using hnew.distinct k _ hk hlength
    refine ⟨stored.filter (fun x => x.id ≠ some (s.idFor middle a)) ++ [saved], ?_, ?_⟩
    · rw [wrote.store]
      exact (h.consistent.perm_actions_put _ _).trans ((hperm.filter _).append_right _)
    · rw [lasting_concat]
      have hlast : s.Kept final.issued a saved := by
        refine ⟨wrote.sameContent, ?_⟩
        rw [wrote.id_saved, idFor]
        cases haid : a.id with
        | some i => exact .inl ⟨rfl, rfl⟩
        | none =>
          refine .inr ⟨rfl, middle.issued, ?_, rfl⟩
          rw [wrote.issued, haid]
          exact Nat.lt_succ_self _
      exact List.rel_append ((forall₂_filter hkept hreplaced).imp fun _ _ hx => hx.mono hissued)
        (.cons hlast .nil)

/-- What lasts is listed, but for what the store keeps for it. -/
theorem map_content_all_perm (h : s.Catalogued actions final) :
    (final.store.all.map content).Perm ((lasting actions).map content) := by
  obtain ⟨stored, hperm, hkept⟩ := h.kept
  have hcontents : stored.map content = (lasting actions).map content := by
    refine forall₂_map_eq hkept fun a _ x hx => ?_
    rw [content, content, hx.content.name, hx.content.plugin, hx.content.datasource,
      hx.content.template]
  rw [← hcontents]
  exact ((Store.perm_byName _).trans hperm).map content

/-- What lasts is found by its name. -/
theorem exists_findNamed?_eq_some (h : s.Catalogued actions final) (ha : a ∈ lasting actions) :
    ∃ x ∈ final.store.all, a.SameContent x ∧ final.store.findNamed? a.name = some x := by
  obtain ⟨stored, hperm, hkept⟩ := h.kept
  obtain ⟨x, hx, hpartner⟩ := exists_of_mem_left hkept ha
  have hsame : a.SameContent x := hpartner.content
  have hstored : x ∈ final.store.actions := hperm.mem_iff.2 hx
  exact ⟨x, Store.mem_all_iff.2 hstored, hsame,
    h.consistent.findNamed?_eq_some_iff.2 ⟨hstored, hsame.name⟩⟩

end Catalogued

/-- If storing one action after the other does not fail, all of them are catalogued. -/
theorem catalogued_afterAll (hok : ∀ item ∈ s.outcomes actions {}, item.isOk)
    (hnew : s.NewIdsFor actions) : s.Catalogued actions (s.afterAll actions {}) := by
  induction actions using List.reverseRecOn with
  | nil => exact ⟨rfl, Store.consistent_empty, Nat.le_refl 0, [], .refl _, .nil⟩
  | append_singleton before a ih =>
    rw [outcomes_append] at hok
    have hbefore := ih (fun item h => hok item (List.mem_append_left _ h)) hnew.of_append
    have hlast : ((s.save a).outcome (s.afterAll before {})).isOk :=
      hok _ (List.mem_append_right _ List.mem_cons_self)
    rw [afterAll_append, afterAll, List.foldl_cons, List.foldl_nil, after]
    rw [outcome] at hlast
    split at hlast
    next hsave => exact hbefore.concat hnew hsave
    next => cases hlast

/-- If nothing that comes of a stream is a failure, then no action has failed. -/
theorem isOk_of_mem_outcomes (hok : ∀ item ∈ (s.saveAll actions none ledger).1, item.isOk) :
    ∀ item ∈ s.outcomes actions ledger, item.isOk := by
  have hlength := s.length_outcomes actions ledger
  have hfirst : ¬ s.firstFailure actions ledger < (s.outcomes actions ledger).length := by
    intro hlt
    have hreached : (s.outcomes actions ledger)[s.firstFailure actions ledger] ∈
        (s.saveAll actions none ledger).1 := by
      rw [saveAll_eq, outcomes_take, List.mem_take_iff_getElem]
      refine ⟨s.firstFailure actions ledger, ?_, rfl⟩
      rw [due, Option.elim_none, tried]
      omega
    unfold firstFailure at hlt hreached
    have hfailed := List.findIdx_getElem (w := hlt)
    rw [hok _ hreached] at hfailed
    cases hfailed
  intro item hitem
  rw [← List.take_of_length_le (Nat.le_of_not_lt hfirst)] at hitem
  exact isOk_of_mem_take_firstFailure hitem

/-! ## The main statement -/

/-- A catalogue loses what its own entries replace, and nothing else. If all that comes of storing its
entries in an empty store has succeeded, and new ids are new, then as many actions are listed as there
are entries that no later one with the same id replaces, with the same content; for each of these, the
search for its name gives an action with its content, which is the one that is printed and run under
this name, and has its line when all are listed. These are all entries if no two carry one id. -/
theorem catalog_keeps_lasting [Url.Idna] (s : Service World) (actions : List Action)
    (hok : ∀ item ∈ (s.saveAll actions none {}).1, item.isOk) (hnew : s.NewIdsFor actions) :
    let final := (s.saveAll actions none {}).2
    ∃ all, getAll.outcome final = .ok all ∧ all.length = (lasting actions).length ∧
      (all.map content).Perm ((lasting actions).map content) ∧
      (∀ a ∈ lasting actions, ∃ x ∈ all, a.SameContent x ∧
        (findByName a.name).outcome final = .ok (some x) ∧
        Program.find a.name final = .ok x final) ∧
      (∀ t network, Program.perform t .list network final =
        .ok (String.join (all.map Program.line), true, network) final) ∧
      ((actions.filterMap Action.id).Nodup → lasting actions = actions) := by
  intro final
  have houtcomes := isOk_of_mem_outcomes hok
  have hcatalogued : s.Catalogued actions final := by
    have hafter := catalogued_afterAll houtcomes hnew
    rwa [show final = s.afterAll actions {} from congrArg Prod.snd (saveAll_eq_of_isOk houtcomes)]
  have hup := hcatalogued.answering
  have hcontents := hcatalogued.map_content_all_perm
  refine ⟨final.store.all, outcome_getAll (hup.next?_eq_none _), ?length, hcontents, ?found,
    Program.perform_list hup, lasting_eq_self⟩
  case length => simpa using hcontents.length_eq
  case found =>
    intro a ha
    obtain ⟨x, hx, hsame, hfind⟩ := hcatalogued.exists_findNamed?_eq_some ha
    refine ⟨x, hx, hsame, ?_, ?_⟩
    · rw [outcome_findByName (hup.next?_eq_none _), hfind]
    · rw [Program.find_eq hup, hfind]
      rfl

/-- Three entries, of which the second carries the id of the first and the last has none. -/
def echoEntries : List Action :=
  [{ echoAction with id := some ⟨"u"⟩ },
    { echoAction with id := some ⟨"u"⟩, name := "all users" },
    { echoAction with name := "no user" }]

/-- The second and the last of the three entries are left, and are listed by name. -/
theorem catalog_keeps_lasting_echo :
    (∀ item ∈ (countingService.saveAll echoEntries none {}).1, item.isOk) ∧
    countingService.NewIdsFor echoEntries ∧
    ∃ all x, getAll.outcome (countingService.saveAll echoEntries none {}).2 = .ok all ∧
      all.length = 2 ∧ x ∈ all ∧
      (findByName "all users").outcome (countingService.saveAll echoEntries none {}).2 =
        .ok (some x) := by
  have hok : ∀ item ∈ (countingService.saveAll echoEntries none {}).1, item.isOk := by
    decide +kernel
  have hnew : countingService.NewIdsFor echoEntries := by
    refine ⟨fun j k hjk _ heq => ?_, by decide +kernel⟩
    have hlength := congrArg (fun id => id.text.length) heq
    simp [countingService] at hlength
    omega
  obtain ⟨all, hall, hlength, -, hfound, -⟩ :=
    catalog_keeps_lasting countingService echoEntries hok hnew
  obtain ⟨x, hx, -, hfind, -⟩ :=
    hfound { echoAction with id := some ⟨"u"⟩, name := "all users" } (by decide +kernel)
  exact ⟨hok, hnew, all, x, hall, hlength, hx, hfind⟩

/-- Of two entries with one id, each is stored when its turn comes, but the first is not left: one
action is listed, and the search for the name of the first finds nothing. -/
theorem replaced_entry_not_left :
    (∀ item ∈ (countingService.saveAll (echoEntries.take 2) none {}).1, item.isOk) ∧
    (echoEntries.take 2).length = 2 ∧
    (getAll.outcome (countingService.saveAll (echoEntries.take 2) none {}).2).toOption.map
      List.length = some 1 ∧
    ((findByName "echo user").outcome
      (countingService.saveAll (echoEntries.take 2) none {}).2).toOption = some none := by
  decide +kernel

end Service

end ActionBook
