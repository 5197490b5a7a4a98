import ActionBook.Failure

/-!
# `Store`: actions by id

A store keeps actions under ids, each id at most once. It does not look at anything but the id of an
action: that names differ, and that an action is kept under its own id, is up to those who use it.
-/

namespace ActionBook

/-- Actions by id. -/
structure Store where
  entries : List (ActionId × Action)
  /-- No id is there twice. -/
  distinct : (entries.map Prod.fst).Nodup

namespace Store

/-- The store with nothing in it. -/
def empty : Store := ⟨[], List.nodup_nil⟩

instance : Inhabited Store := ⟨empty⟩

/-! ## Finding -/

/-- The stored actions. -/
def actions (s : Store) : List Action := s.entries.map Prod.snd

/-- The action kept under an id. -/
def find? (s : Store) (id : ActionId) : Option Action := s.entries.lookup id

/-- An action with the given name: the one stored first, if there are several. -/
def findNamed? (s : Store) (name : String) : Option Action :=
  s.actions.find? fun a => a.name = name

/-- Actions in the order of their names. -/
def byName (actions : List Action) : List Action :=
  actions.mergeSort fun a b => a.name ≤ b.name

/-- All actions, in the order of their names. -/
def all (s : Store) : List Action := byName s.actions

/-- The actions with one of the given names, in the order of their names. -/
def allNamed (s : Store) (names : TextSet) : List Action :=
  byName (s.actions.filter fun a => a.name ∈ names)

/-! ## Changing -/

/-- Puts an action in the place of its id, or at the end. -/
def putEntry (id : ActionId) (a : Action) : List (ActionId × Action) → List (ActionId × Action)
  | [] => [(id, a)]
  | (other, b) :: rest => if other = id then (id, a) :: rest else (other, b) :: putEntry id a rest

theorem mem_fst_putEntry {id i : ActionId} {a : Action} {entries : List (ActionId × Action)} :
    i ∈ (putEntry id a entries).map Prod.fst ↔ i = id ∨ i ∈ entries.map Prod.fst := by
  induction entries with
  | nil => simp [putEntry]
  | cons e rest ih =>
    rw [putEntry]
    split
    next h => simp [h]
    next => simp only [List.map_cons, List.mem_cons, ih]; grind

theorem distinct_putEntry {id : ActionId} {a : Action} {entries : List (ActionId × Action)}
    (h : (entries.map Prod.fst).Nodup) : ((putEntry id a entries).map Prod.fst).Nodup := by
  induction entries with
  | nil => simp [putEntry]
  | cons e rest ih =>
    rw [List.map_cons, List.nodup_cons] at h
    rw [putEntry]
    split
    next heq => exact List.nodup_cons.2 ⟨heq ▸ h.1, h.2⟩
    next hne =>
      refine List.nodup_cons.2 ⟨fun hmem => ?_, ih h.2⟩
      rcases mem_fst_putEntry.1 hmem with heq | hmem
      · exact hne heq
      · exact h.1 hmem

/-- The store with an action kept under an id, in place of any that was. -/
def put (s : Store) (id : ActionId) (a : Action) : Store :=
  ⟨putEntry id a s.entries, distinct_putEntry s.distinct⟩

/-- The store without what is kept under an id. -/
def erase (s : Store) (id : ActionId) : Store where
  entries := s.entries.filter fun e => e.1 ≠ id
  distinct := (List.filter_sublist.map Prod.fst).nodup s.distinct

end Store

end ActionBook
