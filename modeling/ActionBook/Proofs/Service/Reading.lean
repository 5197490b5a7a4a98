import ActionBook.Proofs.Service.Operation
import ActionBook.Service.Lookup
import ActionBook.Service.Running

/-!
# `Service.Reading`: operations that only read

Running and looking up leave the store alone whatever comes of them (`readsOnly_run`,
`readsOnly_getById`, …). If the repository answers, a lookup gives what is in the store
(`outcome_getById`, …).
-/

namespace ActionBook.Service

open Operation

variable {World : Type} {ledger : Ledger} {id : ActionId}

/-! ## Leaving the store alone -/

theorem readsOnly_resolve (r : RunRequest) : ReadsOnly (resolve r) := by
  unfold resolve
  split
  · exact .bind (.ofCall_read _ _) fun found => .orFail _ found
  · exact .pure _
  · exact .throw _
  · exact .throw _

theorem readsOnly_prepare (s : Service World) (r : RunRequest) : ReadsOnly (s.prepare r) := by
  refine .bind (readsOnly_resolve r) fun a => ?_
  split
  · exact .pure _
  · exact .throw _

theorem readsOnly_run (s : Service World) (r : RunRequest) (world : World) :
    ReadsOnly (s.run r world) :=
  .bind (readsOnly_prepare s r) fun _ => .pure _

theorem readsOnly_getById (id : ActionId) : ReadsOnly (getById id) :=
  .bind (.ofCall_read _ _) fun found => .orFail _ found

theorem readsOnly_getAll : ReadsOnly getAll := .ofCall_read _ _

theorem readsOnly_findByName (name : String) : ReadsOnly (findByName name) := .ofCall_read _ _

theorem readsOnly_findDistinct (names : TextSet) : ReadsOnly (findDistinct names) :=
  .bind (.ofCall_read _ _) fun _ => .pure _

/-! ## What is looked up -/

/-- What is kept under an id is given, and it is a failure if there is nothing. -/
theorem outcome_getById (hup : ledger.repository.outages.next? .findById = none) :
    (getById id).outcome ledger = (ledger.store.find? id).elim (.error (.unknownId id)) .ok := by
  obtain ⟨middle, hcall⟩ := exists_ofCall_read_eq_ok (f := (·.find? id)) hup
  show outcome (ofCall (Repository.read .findById (·.find? id)) >>= orFail (.unknownId id)) ledger = _
  rw [outcome_bind, hcall]
  cases ledger.store.find? id <;> rfl

theorem outcome_getAll (hup : ledger.repository.outages.next? .findAll = none) :
    getAll.outcome ledger = .ok ledger.store.all :=
  outcome_ofCall_read hup

theorem outcome_findByName {name : String}
    (hup : ledger.repository.outages.next? .findByName = none) :
    (findByName name).outcome ledger = .ok (ledger.store.findNamed? name) :=
  outcome_ofCall_read hup

theorem outcome_findDistinct {names : TextSet}
    (hup : ledger.repository.outages.next? .findByNames = none) :
    (findDistinct names).outcome ledger =
      .ok (distinctById [] ((ledger.store.allNamed names).filter fun a => a.name ∈ names)) := by
  obtain ⟨middle, hcall⟩ := exists_ofCall_read_eq_ok (f := (·.allNamed names)) hup
  show outcome (ofCall (Repository.read .findByNames (·.allNamed names)) >>= _) ledger = _
  rw [outcome_bind, hcall]
  rfl

end ActionBook.Service
