import ActionBook.Proofs.Service.History
import Mathlib.Data.List.Nodup

/-!
# `Service.Consistency`: what is true of every stored action

A store looks at nothing but ids, so all that is true of the actions in it is owed to the checks and
the completion before each write. `Store.Consistent` is kept by storing and by erasing; as nothing
else changes a store, it is true after every history (`consistent_history`).
-/

namespace ActionBook

/-- An action as it is stored: it has a name and its times, and its derived fields are up to date. -/
structure Action.Complete (a : Action) : Prop where
  name : Text.isBlankText a.name = false
  refreshed : a.refreshed = a
  createdAt : a.createdAt.isSome
  updatedAt : a.updatedAt.isSome

namespace Store

/-- A store of complete actions under their own ids, no two of one name. -/
structure Consistent (store : Store) : Prop where
  id : ∀ {i a}, store.find? i = some a → a.id = some i
  complete : ∀ {i a}, store.find? i = some a → a.Complete
  unique : ∀ {i j a b}, store.find? i = some a → store.find? j = some b → a.name = b.name → i = j

variable {store : Store} {id : ActionId} {a : Action}

theorem consistent_empty : empty.Consistent where
  id h := by simp at h
  complete h := by simp at h
  unique h := by simp at h

namespace Consistent

/-- A store stays consistent if it only loses actions. -/
theorem mono (h : store.Consistent) {other : Store}
    (hfind : ∀ {i a}, other.find? i = some a → store.find? i = some a) : other.Consistent :=
  ⟨fun ha => h.id (hfind ha), fun ha => h.complete (hfind ha),
    fun ha hb => h.unique (hfind ha) (hfind hb)⟩

theorem erase (h : store.Consistent) (id : ActionId) : (store.erase id).Consistent := by
  refine h.mono fun {i a} ha => ?_
  rw [find?_erase] at ha
  by_cases hi : i = id
  · simp [hi] at ha
  · rwa [if_neg hi] at ha

/-- A complete action can be put under its id if no other has its name. -/
theorem put (h : store.Consistent) (hid : a.id = some id) (hcomplete : a.Complete)
    (hunique : ∀ i b, store.find? i = some b → b.name = a.name → i = id) :
    (store.put id a).Consistent := by
  have hfind {i : ActionId} {b : Action} (hb : (store.put id a).find? i = some b) :
      i = id ∧ b = a ∨ i ≠ id ∧ store.find? i = some b := by
    rw [find?_put] at hb
    by_cases hi : i = id
    · rw [if_pos hi] at hb
      exact .inl ⟨hi, (Option.some.inj hb).symm⟩
    · rw [if_neg hi] at hb
      exact .inr ⟨hi, hb⟩
  -- whatever is found is new or was there before, and of two actions at most one is new
  refine ⟨fun hb => ?_, fun hb => ?_, fun hb hc hname => ?_⟩
  · rcases hfind hb with ⟨rfl, rfl⟩ | ⟨-, hb⟩
    · exact hid
    · exact h.id hb
  · rcases hfind hb with ⟨rfl, rfl⟩ | ⟨-, hb⟩
    · exact hcomplete
    · exact h.complete hb
  · rcases hfind hb with ⟨rfl, rfl⟩ | ⟨-, hb'⟩
    · rcases hfind hc with ⟨rfl, rfl⟩ | ⟨-, hc'⟩
      · rfl
      · exact (hunique _ _ hc' hname.symm).symm
    · rcases hfind hc with ⟨rfl, rfl⟩ | ⟨-, hc'⟩
      · exact hunique _ _ hb' hname
      · exact h.unique hb' hc' hname

/-- No two actions of a consistent store have one name. -/
theorem nodup_names (h : store.Consistent) : (store.actions.map Action.name).Nodup := by
  rw [actions, List.map_map]
  refine List.Nodup.map_on ?_ store.distinct.of_map
  rintro ⟨i, a⟩ ha ⟨j, b⟩ hb hname
  have ha := find?_eq_some_iff.2 ha
  have hb := find?_eq_some_iff.2 hb
  have hij : i = j := h.unique ha hb hname
  subst hij
  rw [ha] at hb
  rw [Option.some.inj hb]

/-- In a consistent store, the search for a name finds whatever has it. -/
theorem findNamed?_eq_some (h : store.Consistent) (ha : store.find? id = some a) :
    store.findNamed? a.name = some a := by
  cases hnamed : store.findNamed? a.name with
  | none => exact absurd rfl (findNamed?_eq_none_iff.1 hnamed id a ha)
  | some b =>
    obtain ⟨i, hb, hname⟩ := exists_of_findNamed?_eq_some hnamed
    have hi : i = id := h.unique hb ha hname
    rw [hi, ha] at hb
    rw [Option.some.inj hb]

end Consistent

end Store

namespace Service

open Relation (ReflTransGen)

variable {World : Type} {s : Service World} {ledger final : Ledger} {a saved : Action}
  {mustReplace : Bool}

/-- What was checked before a write is all that the store needs to stay consistent. -/
theorem Wrote.consistent (h : s.Wrote ledger a saved final)
    (accepted : Accepted ledger.store a mustReplace) (hconsistent : ledger.store.Consistent) :
    final.store.Consistent := by
  have hname : saved.name = a.name := h.sameContent.name
  have hcomplete : saved.Complete := by
    rw [h.saved_eq]
    refine ⟨?_, s.refreshed_completed ledger _ a, ?_, ?_⟩
    · rw [(s.sameContent_completed ledger _ a).name]
      exact accepted.name
    · rw [createdAt_completed]
      cases hprevious : ledger.store.predecessor? a with
      | none => rfl
      | some p =>
        obtain ⟨i, -, hp⟩ := Option.bind_eq_some_iff.1 hprevious
        exact (hconsistent.complete hp).createdAt
    · rw [updatedAt_completed, Option.isSome_some]
  rw [h.store]
  refine hconsistent.put h.id_saved hcomplete ?_
  -- whatever has the name is found by it, so the check has seen it
  intro i b hb hbname
  rw [hname] at hbname
  have hfound : ledger.store.findNamed? a.name = some b :=
    hbname ▸ hconsistent.findNamed?_eq_some hb
  have haid : a.id = some i := (accepted.unique b hfound).symm.trans (hconsistent.id hb)
  rw [idFor, haid, Option.getD_some]

theorem Changed.consistent (h : s.Changed ledger final) (hconsistent : ledger.store.Consistent) :
    final.store.Consistent := by
  cases h with
  | alike h =>
    rw [h.store]
    exact hconsistent
  | wrote accepted h => exact h.consistent accepted hconsistent
  | erased store =>
    rw [store]
    exact hconsistent.erase _

theorem consistent_of_reaches (h : ReflTransGen s.Changed ledger final)
    (hconsistent : ledger.store.Consistent) : final.store.Consistent := by
  induction h with
  | refl => exact hconsistent
  | tail _ hchanged ih => exact hchanged.consistent ih

/-- Whatever a service has been asked for, the store is consistent. -/
theorem consistent_history (s : Service World) (steps : List (Step World)) :
    (s.history steps).store.Consistent :=
  consistent_of_reaches (reaches_history steps) Store.consistent_empty

/-- After every history, no two stored actions have one name, and each has a name, is kept under
its own id, has derived fields that follow from the others and has both times. -/
theorem stored_actions_sound (s : Service World) (steps : List (Step World)) :
    ((s.history steps).store.actions.map Action.name).Nodup ∧
    ∀ e ∈ (s.history steps).store.entries,
      Text.isBlankText e.2.name = false ∧ e.2.id = some e.1 ∧ e.2.Derives ∧
      (e.2.isValid → e.2.datasource.isSome) ∧
      e.2.createdAt.isSome ∧ e.2.updatedAt.isSome := by
  have hconsistent := consistent_history s steps
  refine ⟨hconsistent.nodup_names, ?_⟩
  rintro ⟨i, a⟩ ha
  have hfind := Store.find?_eq_some_iff.2 ha
  have hcomplete := hconsistent.complete hfind
  have hderives : a.Derives := Action.derives_iff.2 hcomplete.refreshed
  exact ⟨hcomplete.name, hconsistent.id hfind, hderives, hderives.isSome_datasource,
    hcomplete.createdAt, hcomplete.updatedAt⟩

end Service

end ActionBook
