import Mathlib.Data.List.Forall2

/-!
# `Pairing`: lists that are related item by item

What `List.Forall₂` says of two lists is what holds of each item and its partner. Here is what follows
for images, members and parts of the lists.
-/

namespace ActionBook

variable {α β : Type}

/-- Items and partners with the same images have the same list of images. -/
theorem forall₂_map_eq {R : α → α → Prop} {f : α → β} {items others : List α}
    (h : List.Forall₂ R items others)
    (hf : ∀ item ∈ items, ∀ other, R item other → f other = f item) :
    others.map f = items.map f := by
  induction h with
  | nil => rfl
  | cons hfirst _ ih =>
    rw [List.map_cons, List.map_cons, hf _ List.mem_cons_self _ hfirst,
      ih fun item hitem => hf item (List.mem_cons_of_mem _ hitem)]

/-- Every partner is one of some item. -/
theorem exists_of_mem_right {R : α → β → Prop} {items : List α} {others : List β}
    (h : List.Forall₂ R items others) {other : β} (hother : other ∈ others) :
    ∃ item ∈ items, R item other := by
  induction h with
  | nil => cases hother
  | cons hfirst _ ih =>
    rcases List.mem_cons.1 hother with rfl | hother
    · exact ⟨_, List.mem_cons_self, hfirst⟩
    · obtain ⟨item, hitem, hR⟩ := ih hother
      exact ⟨item, List.mem_cons_of_mem _ hitem, hR⟩

/-- Every item has a partner. -/
theorem exists_of_mem_left {R : α → β → Prop} {items : List α} {others : List β}
    (h : List.Forall₂ R items others) {item : α} (hitem : item ∈ items) :
    ∃ other ∈ others, R item other := by
  have hflipped : List.Forall₂ (flip R) others items := h.flip
  exact exists_of_mem_right hflipped hitem

/-- Items are left with their partners, if the same is left on both sides. -/
theorem forall₂_filter {R : α → β → Prop} {p : α → Bool} {q : β → Bool} {items : List α}
    {others : List β} (h : List.Forall₂ R items others)
    (hpq : ∀ item ∈ items, ∀ other, R item other → p item = q other) :
    List.Forall₂ R (items.filter p) (others.filter q) := by
  induction h with
  | nil => exact .nil
  | @cons item other items others hfirst _ ih =>
    obtain ⟨hitem, hitems⟩ := List.forall_mem_cons.1 hpq
    rw [List.filter_cons, List.filter_cons, hitem other hfirst]
    split
    · exact .cons hfirst (ih hitems)
    · exact ih hitems

end ActionBook
