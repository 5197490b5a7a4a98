import ActionBook.Proofs.Service.Answering
import ActionBook.Proofs.Service.Atomicity
import ActionBook.Proofs.Service.Lookup

/-!
# `Service.Acceptance`: which actions can be stored

While the repository answers, the name of an action decides whether it can be stored: it must not be
blank, and no action with another id may have it (`NameTaken`). The check asks the store for one action
with the name only; in a consistent store there is no other to ask for, so that the answer is
conclusive (`objection?_of_taken`, `objection?_of_free`). What the ways to store an action add are
conditions on the id (`writes_succeed_just_if_named`).
-/

namespace ActionBook.Service

open Operation

variable {World : Type} {s : Service World} {store : Store} {a b c saved : Action} {i : ActionId}
  {mustReplace : Bool} {ledger final : Ledger}

/-! ## Names -/

/-- An action with another id has the name of an action. -/
def NameTaken (store : Store) (a : Action) : Prop :=
  ∃ b ∈ store.actions, b.id ≠ a.id ∧ b.name = a.name

theorem objection?_of_blank (h : Text.isBlankText a.name = true) :
    objection? store a mustReplace =
      some (.invalidParameter "action name must not be empty") := by
  rw [objection?, if_pos h]

theorem objection?_of_missing (hname : Text.isBlankText a.name = false) (hid : a.id = some i)
    (h : store.find? i = none) : objection? store a true = some (.unknownId i) := by
  have hmissing : (true && (store.predecessor? a).isNone) = true := by
    rw [Store.predecessor?, hid, Option.bind_some, h]
    rfl
  rw [objection?, if_neg (by simp [hname]), if_pos hmissing, hid, Option.elim_some]

/-- With a name, and with something to replace if there has to be, the search for the name decides. -/
theorem objection?_of_named (hname : Text.isBlankText a.name = false)
    (hprevious : mustReplace → (store.predecessor? a).isSome) :
    objection? store a mustReplace =
      match store.findNamed? a.name with
      | some other => if other.id = a.id then none else some (.duplicateName a.name)
      | none => none := by
  have hpresent : ¬(mustReplace && (store.predecessor? a).isNone) = true := by
    intro h
    rw [Bool.and_eq_true] at h
    have hsome := hprevious h.1
    rw [Option.isNone_iff_eq_none.1 h.2] at hsome
    nomatch hsome
  have hnamed : ¬ Text.isBlankText a.name = true := by
    rw [hname]
    exact Bool.false_ne_true
  exact (if_neg hnamed).trans (if_neg hpresent)

theorem objection?_of_taken (hconsistent : store.Consistent)
    (hname : Text.isBlankText a.name = false)
    (hprevious : mustReplace → (store.predecessor? a).isSome) (h : NameTaken store a) :
    objection? store a mustReplace = some (.duplicateName a.name) := by
  obtain ⟨b, hb, hid, hbname⟩ := h
  have hfound : store.findNamed? a.name = some b := hconsistent.findNamed?_eq_some_iff.2 ⟨hb, hbname⟩
  rw [objection?_of_named hname hprevious, hfound]
  exact if_neg hid

theorem objection?_of_free (hname : Text.isBlankText a.name = false)
    (hprevious : mustReplace → (store.predecessor? a).isSome) (h : ¬ NameTaken store a) :
    objection? store a mustReplace = none := by
  rw [objection?_of_named hname hprevious]
  cases hfound : store.findNamed? a.name with
  | none => rfl
  | some b =>
    obtain ⟨j, hj, hbname⟩ := Store.exists_of_findNamed?_eq_some hfound
    have hid : b.id = a.id := by
      by_contra hne
      exact h ⟨b, Store.mem_actions_iff.2 ⟨j, hj⟩, hne, hbname⟩
    exact if_pos hid

/-- Whoever has a name has it alone. -/
theorem not_nameTaken_of_find? (hconsistent : store.Consistent) (hb : store.find? i = some b)
    (hid : a.id = some i) (hname : a.name = b.name) : ¬ NameTaken store a := by
  rintro ⟨other, hother, hne, hsame⟩
  obtain ⟨j, hj⟩ := Store.mem_actions_iff.1 hother
  have hji : j = i := hconsistent.unique hj hb (hsame.trans hname)
  subst hji
  exact hne ((hconsistent.id hj).trans hid.symm)

/-- If the action that has a name is gone or has another one, then nothing has the name. -/
theorem not_nameTaken_of_changesAt {other : Store} {entry : Option Action}
    (hconsistent : store.Consistent) (hb : store.find? i = some b)
    (hchanges : store.ChangesAt other i entry) (hentry : ∀ c ∈ entry, c.name ≠ b.name)
    (hname : a.name = b.name) : ¬ NameTaken other a := by
  rintro ⟨c, hc, -, hsame⟩
  obtain ⟨j, hj⟩ := Store.mem_actions_iff.1 hc
  by_cases hji : j = i
  · subst hji
    rw [hchanges.here] at hj
    exact hentry c hj (hsame.trans hname)
  · rw [hchanges.elsewhere j hji] at hj
    exact hji (hconsistent.unique hj hb (hsame.trans hname))

/-! ## Storing -/

theorem save_eq_invalidParameter (hup : ledger.Answering) (h : Text.isBlankText a.name = true) :
    s.save a ledger = .error (.invalidParameter "action name must not be empty") ledger :=
  persist_eq_error hup (objection?_of_blank h)

theorem save_eq_duplicateName (hup : ledger.Answering) (hconsistent : ledger.store.Consistent)
    (hname : Text.isBlankText a.name = false) (h : NameTaken ledger.store a) :
    s.save a ledger = .error (.duplicateName a.name) ledger := by
  have hobjection : objection? ledger.store a false = some (.duplicateName a.name) :=
    objection?_of_taken hconsistent hname nofun h
  exact persist_eq_error hup hobjection

theorem exists_save_eq_ok (hup : ledger.Answering) (hname : Text.isBlankText a.name = false)
    (h : ¬ NameTaken ledger.store a) : ∃ saved final, s.save a ledger = .ok saved final := by
  have hobjection : objection? ledger.store a false = none := objection?_of_free hname nofun h
  obtain ⟨saved, final, hsave, -⟩ := exists_persist_eq_ok (s := s) hup hobjection
  exact ⟨saved, final, hsave⟩

/-- Where there is something to replace, to insist on it changes nothing. -/
theorem persist_true_eq_save (hup : ledger.Answering)
    (hprevious : (ledger.store.predecessor? a).isSome) :
    s.persist a true ledger = s.save a ledger := by
  have hobjection : objection? ledger.store a true = objection? ledger.store a false := by
    cases hname : Text.isBlankText a.name with
    | true => rw [objection?_of_blank hname, objection?_of_blank hname]
    | false =>
      have hnamed : objection? ledger.store a false = _ := objection?_of_named hname nofun
      rw [hnamed, objection?_of_named hname fun _ => hprevious]
  have hchecked : checked a true ledger = checked a false ledger := by
    rw [checked_eq hup, checked_eq hup, hobjection]
  show s.persist a true ledger = s.persist a false ledger
  rw [persist_eq, persist_eq]
  cases h : checked a false ledger with
  | ok previous middle => rw [bind_of_eq_ok h, bind_of_eq_ok (hchecked.trans h)]
  | error e middle => rw [bind_of_eq_error h, bind_of_eq_error (hchecked.trans h)]

theorem create_eq (s : Service World) (a : Action) (ledger : Ledger) :
    s.create a ledger =
      if a.id.isSome then .error (.invalidParameter "a new action must not carry an id") ledger
      else s.save a ledger := by
  unfold create save
  split <;> rfl

theorem update_eq (hup : ledger.Answering) (s : Service World) (i : ActionId) (a : Action) :
    s.update i a ledger =
      if Text.isBlankText a.name then
        .error (.invalidParameter "action name must not be empty") ledger
      else if (ledger.store.find? i).isNone then .error (.unknownId i) ledger
      else s.save { a with id := some i } ledger := by
  unfold update
  split
  next hblank => exact persist_eq_error hup (objection?_of_blank hblank)
  next hname =>
    rw [Bool.not_eq_true] at hname
    split
    next hmissing =>
      exact persist_eq_error hup
        (objection?_of_missing hname rfl (Option.isNone_iff_eq_none.1 hmissing))
    next hpresent =>
      refine persist_true_eq_save hup ?_
      rw [Bool.not_eq_true, Option.isNone_eq_false_iff] at hpresent
      exact hpresent

theorem answering_after_delete (hup : ledger.Answering) (h : delete i ledger = .ok b final) :
    final.Answering := by
  rw [(of_delete_eq_ok h).2]
  exact hup.afterCall _ _

theorem delete_eq_ok (hup : ledger.Answering) (h : ledger.store.find? i = some b) :
    delete i ledger = .ok b (ledger.afterCall .delete (ledger.store.erase i)) := by
  have hcall : ofCall (Repository.delete i) ledger =
      .ok (ledger.store.find? i) (ledger.afterCall .delete (ledger.store.erase i)) :=
    ofCall_answer_eq_ok_iff.2 ⟨hup.next?_eq_none _, _, rfl, rfl⟩
  show (ofCall (Repository.delete i) >>= orFail (.unknownId i)) ledger = _
  rw [bind_of_eq_ok hcall, h]
  rfl

/-! ## The main statement -/

/-- When a write succeeds. In every state that requests lead to, if the repository answers: saving an
action is refused for a blank name, else just if an action with another id has its name, and succeeds
otherwise; creating one refuses an id and else is saving; updating is refused for a blank name, else if
there is nothing under the id, and else is saving under this id, whatever id the action carries. So a
name can be used again once the action that had it has been removed or has got another name, and an
action can keep its name. -/
theorem writes_succeed_just_if_named (s : Service World) (hreach : s.Reachable ledger)
    (hup : ledger.Answering) (a : Action) :
    ((∃ reason, (s.save a).outcome ledger = .error (.invalidParameter reason)) ↔
      Text.isBlankText a.name = true) ∧
    (Text.isBlankText a.name = false →
      ((s.save a).outcome ledger = .error (.duplicateName a.name) ↔ NameTaken ledger.store a) ∧
      ((∃ saved, (s.save a).outcome ledger = .ok saved) ↔ ¬ NameTaken ledger.store a)) ∧
    s.create a ledger =
      (if a.id.isSome then .error (.invalidParameter "a new action must not carry an id") ledger
      else s.save a ledger) ∧
    (∀ i, s.update i a ledger =
      if Text.isBlankText a.name then
        .error (.invalidParameter "action name must not be empty") ledger
      else if (ledger.store.find? i).isNone then .error (.unknownId i) ledger
      else s.save { a with id := some i } ledger) ∧
    ∀ i b, ledger.store.find? i = some b → a.name = b.name →
      (∃ final, delete i ledger = .ok b final ∧ ∃ saved, (s.save a).outcome final = .ok saved) ∧
      (∀ c renamed final, c.id = some i → c.name ≠ b.name → s.save c ledger = .ok renamed final →
        ∃ saved, (s.save a).outcome final = .ok saved) ∧
      (a.id = some i → ∃ saved, (s.save a).outcome ledger = .ok saved) := by
  have hconsistent := hreach.consistent
  have hsaved {l : Ledger} (hup : l.Answering) (hname : Text.isBlankText a.name = false)
      (hfree : ¬ NameTaken l.store a) : ∃ saved, (s.save a).outcome l = .ok saved := by
    obtain ⟨saved, final, hsave⟩ := exists_save_eq_ok (s := s) hup hname hfree
    exact ⟨saved, by rw [outcome, hsave]⟩
  refine ⟨?blank, ?named, create_eq s a ledger, fun i => update_eq hup s i a, ?again⟩
  case blank =>
    constructor
    · rintro ⟨reason, herror⟩
      by_contra hname
      rw [Bool.not_eq_true] at hname
      by_cases htaken : NameTaken ledger.store a
      · rw [outcome, save_eq_duplicateName hup hconsistent hname htaken] at herror
        cases herror
      · obtain ⟨saved, hok⟩ := hsaved hup hname htaken
        rw [hok] at herror
        cases herror
    · intro hblank
      exact ⟨_, by rw [outcome, save_eq_invalidParameter hup hblank]⟩
  case named =>
    intro hname
    by_cases htaken : NameTaken ledger.store a
    · have herror : (s.save a).outcome ledger = .error (.duplicateName a.name) := by
        rw [outcome, save_eq_duplicateName hup hconsistent hname htaken]
      simp [herror, htaken]
    · obtain ⟨saved, hok⟩ := hsaved hup hname htaken
      simp [hok, htaken]
  case again =>
    intro i b hb hsame
    have hname : Text.isBlankText a.name = false := by
      rw [hsame]
      exact (hconsistent.complete hb).name
    refine ⟨?_, ?_, fun hid => hsaved hup hname (not_nameTaken_of_find? hconsistent hb hid hsame)⟩
    · have hdelete := delete_eq_ok hup hb
      refine ⟨_, hdelete, hsaved (answering_after_delete hup hdelete) hname ?_⟩
      exact not_nameTaken_of_changesAt hconsistent hb (Store.changesAt_erase _ i) (by simp) hsame
    · intro c renamed final hid hother hsave
      have hfinal : final.Answering := by
        have hafter := answering_after_save hup s c
        rwa [Operation.after, hsave] at hafter
      have wrote := (of_persist_eq_ok hsave).2
      have hchanges := wrote.changesAt
      rw [idFor, hid, Option.getD_some] at hchanges
      refine hsaved hfinal hname (not_nameTaken_of_changesAt hconsistent hb hchanges ?_ hsame)
      rintro _ ⟨⟩
      rwa [wrote.sameContent.name]

/-- With two stored actions, a third one cannot get the name of one of them, until this has another
name. -/
theorem writes_succeed_just_if_named_echo :
    let a : Action := { echoAction with id := some ⟨"3"⟩, name := "all users" }
    echoService.Reachable echoPair ∧ echoPair.Answering ∧
    (echoService.save a).outcome echoPair = .error (.duplicateName "all users") ∧
    ∃ renamed final, echoService.save { a with id := some ⟨"2"⟩, name := "users" } echoPair =
        .ok renamed final ∧
      ∃ saved, (echoService.save a).outcome final = .ok saved := by
  intro a
  have hreach : echoService.Reachable echoPair := reachable_history _ _
  have hup : echoPair.Answering := by
    funext call
    cases call <;> rfl
  obtain ⟨-, hnamed, -, -, hagain⟩ := writes_succeed_just_if_named echoService hreach hup a
  have hstored : ∃ b, echoPair.store.find? ⟨"2"⟩ = some b ∧ a.name = b.name ∧ b.id ≠ a.id :=
    ⟨_, rfl, rfl, by decide⟩
  obtain ⟨b, hb, hname, hid⟩ := hstored
  have htaken : NameTaken echoPair.store a :=
    ⟨b, Store.mem_actions_iff.2 ⟨_, hb⟩, hid, hname.symm⟩
  have hfree : ¬ NameTaken echoPair.store { a with id := some ⟨"2"⟩, name := "users" } := by
    rintro ⟨c, hc, -, hcname⟩
    have hnames : echoPair.store.actions.map Action.name = ["echo user", "all users"] := by
      decide +kernel
    have hmem := List.mem_map_of_mem (f := Action.name) hc
    rw [hnames, hcname] at hmem
    revert hmem
    decide
  obtain ⟨renamed, final, hsave⟩ :=
    exists_save_eq_ok (s := echoService) hup (by decide +kernel) hfree
  refine ⟨hreach, hup, (hnamed (by decide +kernel)).1.2 htaken, renamed, final, hsave, ?_⟩
  exact (hagain _ b hb hname).2.1 _ renamed final rfl (by rw [← hname]; decide) hsave

end ActionBook.Service
