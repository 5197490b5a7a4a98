import ActionBook.Proofs.Service.Persisting
import ActionBook.Proofs.Service.Reading

/-!
# `Service.Atomicity`: one entry or none

Whichever call to the repository is not answered, an operation does all that it is for or nothing.
Storing changes the entry of the action that comes back and no other (`StoresOne`), removing takes
away one entry (`RemovesOne`), and where either fails, the store is what it was. All other operations
only read.
-/

namespace ActionBook.Service

open Operation

variable {World : Type} {s : Service World} {ledger final : Ledger} {a saved : Action} {id : ActionId}
  {e : ActionError}

/-! ## What a write has done -/

theorem of_create_eq_ok (h : s.create a ledger = .ok saved final) :
    a.id = none ∧ s.persist a false ledger = .ok saved final := by
  unfold create at h
  cases hid : a.id with
  | none =>
    rw [hid] at h
    exact ⟨rfl, h⟩
  | some id =>
    rw [hid] at h
    nomatch h

theorem alike_of_create_eq_error (h : s.create a ledger = .error e final) : ledger.Alike final := by
  unfold create at h
  split at h
  · exact (ReadsOnly.throw _).of_error h
  · exact alike_of_persist_eq_error h

theorem of_delete_eq_ok (h : delete id ledger = .ok a final) :
    ledger.store.find? id = some a ∧
      final = ledger.afterCall .delete (ledger.store.erase id) := by
  obtain ⟨found, middle, hcall, hrest⟩ := bind_eq_ok_iff.1 h
  obtain ⟨rfl, rfl⟩ := of_ofCall_delete_eq_ok hcall
  cases hfound : ledger.store.find? id with
  | none =>
    rw [hfound] at hrest
    nomatch hrest
  | some b =>
    rw [hfound] at hrest
    obtain ⟨rfl, rfl⟩ := pure_eq_ok_iff.1 hrest
    exact ⟨rfl, rfl⟩

theorem alike_of_delete_eq_error (h : delete id ledger = .error e final) : ledger.Alike final := by
  rcases bind_eq_error_iff.1 h with hcall | ⟨found, middle, hcall, hrest⟩
  · exact alike_of_ofCall_delete_eq_error hcall
  obtain ⟨rfl, rfl⟩ := of_ofCall_delete_eq_ok hcall
  cases hfound : ledger.store.find? id with
  | some b =>
    rw [hfound] at hrest
    nomatch hrest
  | none =>
    -- the call has been made and has removed nothing, as there was nothing
    rw [hfound] at hrest
    have hfinal : ledger.afterCall .delete (ledger.store.erase id) = final := by
      cases hrest
      rfl
    rw [← hfinal, Store.erase_eq_self hfound]
    exact ledger.alike_afterCall .delete

/-! ## Atomicity -/

/-- The operation stores the action that it gives back, under the id which that carries, and leaves
all else as it is; or it fails, and the store stays as it is. -/
structure StoresOne (op : Operation Action) : Prop where
  ok : ∀ {ledger saved final}, op ledger = .ok saved final →
    ∃ id, saved.id = some id ∧ ledger.store.ChangesAt final.store id (some saved)
  error : ∀ {ledger e final}, op ledger = .error e final → final.store = ledger.store

/-- The operation removes what is kept under an id, gives it back and leaves all else as it is; or it
fails, and the store stays as it is. -/
structure RemovesOne (id : ActionId) (op : Operation Action) : Prop where
  ok : ∀ {ledger a final}, op ledger = .ok a final →
    ledger.store.find? id = some a ∧ ledger.store.ChangesAt final.store id none
  error : ∀ {ledger e final}, op ledger = .error e final → final.store = ledger.store

theorem storesOne_persist (s : Service World) (a : Action) (mustReplace : Bool) :
    StoresOne (s.persist a mustReplace) where
  ok {ledger saved final} h := by
    obtain ⟨-, wrote⟩ := of_persist_eq_ok h
    exact ⟨_, wrote.id_saved, wrote.changesAt⟩
  error h := (alike_of_persist_eq_error h).store

theorem storesOne_create (s : Service World) (a : Action) : StoresOne (s.create a) where
  ok h := (storesOne_persist s a false).ok (of_create_eq_ok h).2
  error h := (alike_of_create_eq_error h).store

theorem removesOne_delete (id : ActionId) : RemovesOne id (delete id) where
  ok {ledger a final} h := by
    obtain ⟨hfound, rfl⟩ := of_delete_eq_ok h
    exact ⟨hfound, Store.changesAt_erase _ _⟩
  error h := (alike_of_delete_eq_error h).store

/-- In every state, whichever calls to the repository fail: an operation that stores or removes does
this to one entry if it succeeds and to none if it fails, and every other operation leaves the store
alone, whatever comes of it. -/
theorem change_one_entry_or_none (s : Service World) :
    (∀ a, StoresOne (s.save a)) ∧ (∀ a, StoresOne (s.create a)) ∧
    (∀ id a, StoresOne (s.update id a)) ∧ (∀ id, RemovesOne id (delete id)) ∧
    (∀ r world, ReadsOnly (s.run r world)) ∧ (∀ id, ReadsOnly (getById id)) ∧ ReadsOnly getAll ∧
    (∀ name, ReadsOnly (findByName name)) ∧ ∀ names, ReadsOnly (findDistinct names) :=
  ⟨fun a => storesOne_persist s a false, storesOne_create s,
    fun id a => storesOne_persist s { a with id := some id } true, removesOne_delete,
    readsOnly_run s, readsOnly_getById, readsOnly_getAll, readsOnly_findByName,
    readsOnly_findDistinct⟩

end ActionBook.Service
