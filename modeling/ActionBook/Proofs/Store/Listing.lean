import ActionBook.Proofs.Store.View
import Mathlib.Data.List.Perm.Basic

/-!
# `Store.Listing`: actions in the order of their names

If no two actions have one name, there is one way to list them in ascending order of names
(`eq_of_ascending`). So however the entries of a store are ordered, and whether one sorts before one
selects or after it, the list is the same (`ascending_byName`, `Ascending.filter`).
-/

namespace ActionBook.Store

variable {actions others : List Action}

/-- The names strictly ascend, so that no two are the same. -/
def Ascending (actions : List Action) : Prop := actions.Pairwise fun a b => a.name < b.name

namespace Ascending

theorem nodup (h : Ascending actions) : actions.Nodup := by
  refine h.imp fun {a b} hlt heq => ?_
  rw [heq] at hlt
  exact String.lt_irrefl _ hlt

theorem nodup_names (h : Ascending actions) : (actions.map Action.name).Nodup := by
  refine List.pairwise_map.2 (h.imp fun {a b} hlt heq => ?_)
  rw [heq] at hlt
  exact String.lt_irrefl _ hlt

theorem filter (h : Ascending actions) (p : Action → Bool) : Ascending (actions.filter p) :=
  List.Pairwise.filter p h

end Ascending

/-- Ascending lists of the same actions are the same list. -/
theorem eq_of_ascending (h : Ascending actions) (h' : Ascending others)
    (hmem : ∀ a, a ∈ actions ↔ a ∈ others) : actions = others := by
  have hperm : actions.Perm others := (List.perm_ext_iff_of_nodup h.nodup h'.nodup).2 hmem
  refine List.Perm.eq_of_pairwise (fun a b _ _ hab hba => ?_) h h' hperm
  exact absurd hba (String.lt_asymm hab)

theorem perm_byName (actions : List Action) : (byName actions).Perm actions :=
  List.mergeSort_perm _ _

/-- Sorted by name, actions of different names ascend. -/
theorem ascending_byName (h : (actions.map Action.name).Nodup) : Ascending (byName actions) := by
  have hsorted : (byName actions).Pairwise fun a b => a.name ≤ b.name := by
    have hpairwise : (byName actions).Pairwise fun a b => decide (a.name ≤ b.name) = true := by
      refine List.pairwise_mergeSort (fun a b c hab hbc => ?_) (fun a b => ?_) actions
      · exact decide_eq_true (String.le_trans (of_decide_eq_true hab) (of_decide_eq_true hbc))
      · simpa using String.le_total a.name b.name
    exact hpairwise.imp fun h => of_decide_eq_true h
  have hnames : (byName actions).Pairwise fun a b => a.name ≠ b.name :=
    List.pairwise_map.1 (((perm_byName actions).map Action.name).nodup_iff.2 h)
  refine List.Pairwise.imp₂ (fun a b hle hne => ?_) hsorted hnames
  by_contra hlt
  exact hne (String.le_antisymm hle (String.not_lt.1 hlt))

end ActionBook.Store
