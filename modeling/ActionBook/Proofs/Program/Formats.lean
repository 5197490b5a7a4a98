import ActionBook.Program
import ActionBook.Proofs.Execution.Format
import ActionBook.Proofs.Json.Printing
import ActionBook.Proofs.Json.Reading
import ActionBook.Proofs.Service.Answering
import ActionBook.Proofs.Service.Reading
import ActionBook.Proofs.Service.Saving

/-!
# `Program.Formats`: nothing is lost in a format

`formats_lossless` says of every type with a format that its values are decoded from what is written
for them: from the JSON value in every case (`LosslessAsTree`), and from both kinds of text if the
type has no free values in it (`LosslessAsText`). What is printed of a stored action is such a text.

Texts are read with a bound on nesting, which the types without free values stay far below.
-/

namespace ActionBook

open Json (compact decodeText decodeTree pretty textReading treeReading)

/-! ## Decoding and writing again -/

namespace Codec

variable {α : Type} {c : Codec α}

/-- The JSON value written for what a tree holds. -/
def rewriteTree (c : Codec α) (tree : Json) : Except DecodeError Json :=
  (decodeTree c.decode tree).map fun x => (c.encode x).value.tree

/-- The text written, in one of the ways to do so, for what a text holds. -/
def rewriteText (c : Codec α) (write : Json → String) (text : String) :
    Except DecodeError String :=
  (decodeText c.decode text.toList).map fun x => write (c.encode x)

/-- Every value is decoded from the JSON value written for it, whatever order the members of objects
are in. What has been decoded and written once does not change when that is done again. -/
structure LosslessAsTree (c : Codec α) : Prop where
  decode_value : ∀ x, decodeTree c.decode (c.encode x).value.tree = .ok x
  decode_reordered : ∀ x tree, (c.encode x).Reordered tree → decodeTree c.decode tree = .ok x
  idempotent : ∀ tree tree', c.rewriteTree tree = .ok tree' → c.rewriteTree tree' = .ok tree'

/-- Every value is decoded from the texts written for it, with and without lines. What has been
decoded and written once does not change when that is done again. -/
structure LosslessAsText (c : Codec α) : Prop where
  decode_compact : ∀ x, decodeText c.decode (c.encode x).compactText.toList = .ok x
  decode_pretty : ∀ x, decodeText c.decode (c.encode x).prettyText.toList = .ok x
  idempotent : ∀ write ∈ [Json.compactText, Json.prettyText], ∀ text text',
    c.rewriteText write text = .ok text' → c.rewriteText write text' = .ok text'

theorem losslessAsTree (h : c.LawfulAt treeReading) : c.LosslessAsTree := by
  have hvalue : ∀ x, decodeTree c.decode (c.encode x).value.tree = .ok x :=
    fun x => h.decode_eq x _ (h.distinct x).reordered_value
  refine ⟨hvalue, h.decode_eq, fun tree tree' htree => ?_⟩
  rw [rewriteTree] at htree
  cases hdecode : decodeTree c.decode tree with
  | error e => rw [hdecode] at htree; cases htree
  | ok x =>
    rw [hdecode] at htree
    cases htree
    rw [rewriteTree, hvalue x]
    rfl

/-- A value is decoded from every text that spells the tree written for it. -/
theorem decodeText_eq (h : c.LawfulAt textReading) {x : α} {text gap : List Char}
    (htext : Json.Spells (c.encode x) text) (hgap : Json.Gap gap) :
    decodeText c.decode (text ++ gap) = .ok x := by
  have hdocument : (c.encode x).IsDocument (text ++ gap) := ⟨[], text, gap, .nil, htext, hgap, rfl⟩
  rw [Json.decodeText_of_isDocument c.decode hdocument]
  exact h.decode_eq x _ (.refl _)

theorem losslessAsText (h : c.LawfulAt textReading) (hwhole : c.WritesWhole) :
    c.LosslessAsText := by
  have hcompact : ∀ x, decodeText c.decode (c.encode x).compactText.toList = .ok x := by
    intro x
    rw [Json.compactText, String.toList_ofList, ← List.append_nil (compact _)]
    exact decodeText_eq h (Json.spells_compact (hwhole x)) .nil
  have hpretty : ∀ x, decodeText c.decode (c.encode x).prettyText.toList = .ok x := by
    intro x
    rw [Json.prettyText, String.toList_ofList, ← List.append_nil (pretty _)]
    exact decodeText_eq h (Json.spells_prettyAt (hwhole x) 0) .nil
  refine ⟨hcompact, hpretty, fun write hwrite text text' htext => ?_⟩
  rw [rewriteText] at htext
  cases hdecode : decodeText c.decode text.toList with
  | error e => rw [hdecode] at htext; cases htext
  | ok x =>
    rw [hdecode] at htext
    cases htext
    have hwritten : decodeText c.decode (write (c.encode x)).toList = .ok x := by
      rcases List.mem_pair.1 hwrite with rfl | rfl
      · exact hcompact x
      · exact hpretty x
    rw [rewriteText, hwritten]
    rfl

end Codec

/-! ## What is printed -/

namespace Program

variable {s : Surroundings} {ledger : Ledger} {name : String} {a : Action}

theorem answering_saveAll {World : Type} (s : Service World) (actions : List Action)
    (polls : Option Nat) (h : ledger.Answering) : (s.saveAll actions polls ledger).2.Answering := by
  -- what a stream stores is the start of the list, stored one by one
  have hall : ∀ actions : List Action, ∀ ledger : Ledger, ledger.Answering →
      (s.afterAll actions ledger).Answering := by
    intro actions
    induction actions with
    | nil => exact fun _ h => h
    | cons a actions ih => exact fun _ h => ih _ (Service.answering_after_save h s a)
  rw [Service.saveAll_eq]
  exact hall _ _ h

/-- After a catalogue has been loaded, the repository answers. -/
theorem answering_load [Url.Idna] {catalog : Option String} (h : load s catalog = .ok ledger) :
    ledger.Answering := by
  cases catalog with
  | none => cases h; rfl
  | some path =>
    simp only [load] at h
    split at h
    · cases h
    next catalog _ =>
      split at h
      · cases h
      · cases h
        exact answering_saveAll (service s) catalog.actions none rfl

/-- The action of a name is printed as a text on lines. -/
theorem perform_print [Url.Idna] (h : ledger.Answering) (hfind : ledger.store.findNamed? name = some a)
    (network : Http.Network) :
    perform s (.print name) network ledger =
      .ok ((Action.codec.encode a).prettyText ++ "\n", true, network) ledger := by
  have hcall : Service.findByName name ledger = .ok (some a) ledger := by
    rw [← hfind]
    exact Service.ofCall_read_eq_ok h .findByName _
  have hprint : find name ledger = .ok a ledger := by
    rw [find, Operation.bind_of_eq_ok hcall]
    rfl
  rw [perform, Operation.bind_of_eq_ok hprint]
  rfl

theorem run_print [Url.Idna] {args : List String} {network : Http.Network} {catalog : Option String}
    (hargs : CommandLine.read s.environment args = .ok ⟨catalog, .print name⟩)
    (hload : load s catalog = .ok ledger) (hfind : ledger.store.findNamed? name = some a) :
    run s args network =
      (.done ((Action.codec.encode a).prettyText ++ "\n") true, network) := by
  rw [run, hargs]
  simp only [hload, perform_print (answering_load hload) hfind]

end Program

/-! ## All formats -/

theorem Json.allows_treeReading (depth : Nat) : treeReading.Allows depth := nofun

namespace Codec

variable {α : Type} {c : Codec α}

/-- A type without free values takes a number of levels that texts have room for. -/
theorem lossless {depth : Nat} (hdepth : depth ≤ 127)
    (h : ∀ {r : Reading}, r.Allows depth → c.LawfulAt r) (hwhole : c.WritesWhole) :
    c.LosslessAsTree ∧ c.LosslessAsText :=
  ⟨losslessAsTree (h (Json.allows_treeReading depth)),
    losslessAsText (h (Json.allows_textReading.2 hdepth)) hwhole⟩

end Codec

/-- What is printed of an action is decoded to it. -/
theorem Action.decodeText_print (a : Action) :
    decodeText Action.codec.decode ((Action.codec.encode a).prettyText ++ "\n").toList = .ok a := by
  rw [String.toList_append, Json.prettyText, String.toList_ofList]
  exact Codec.decodeText_eq (lawfulAt_codec (Json.allows_textReading.2 (by decide)))
    (Json.spells_prettyAt (writesWhole_codec a) 0) (Json.gap_newLine 0)

/-- Every value of a type with a format is decoded from what is written for it: from its JSON value,
with the members of objects in any order, and from both kinds of text, unless there are free values
in it. So writing what has been decoded changes nothing the second time. What is printed of a stored
action is decoded to that action. -/
theorem formats_lossless [Url.Idna] :
    (ActionId.codec.LosslessAsTree ∧ ActionId.codec.LosslessAsText) ∧
    (Property.codec.LosslessAsTree ∧ Property.codec.LosslessAsText) ∧
    (Param.codec.LosslessAsTree ∧ Param.codec.LosslessAsText) ∧
    (Datasource.codec.LosslessAsTree ∧ Datasource.codec.LosslessAsText) ∧
    (RequestTemplate.codec.LosslessAsTree ∧ RequestTemplate.codec.LosslessAsText) ∧
    (Action.codec.LosslessAsTree ∧ Action.codec.LosslessAsText) ∧
    (RunRequest.codec.LosslessAsTree ∧ RunRequest.codec.LosslessAsText) ∧
    (SentRequest.codec.LosslessAsTree ∧ SentRequest.codec.LosslessAsText) ∧
    RunResult.codec.LosslessAsTree ∧
    ∀ (s : Surroundings) (args : List String) (network : Http.Network) (catalog : Option String)
      (name : String) (ledger : Ledger) (a : Action),
      CommandLine.read s.environment args = .ok ⟨catalog, .print name⟩ →
      Program.load s catalog = .ok ledger → ledger.store.findNamed? name = some a →
      ∃ stdout, Program.run s args network = (.done stdout true, network) ∧
        decodeText Action.codec.decode stdout.toList = .ok a := by
  refine ⟨?id, ?property, ?param, ?datasource, ?template, ?action, ?request, ?sent, ?result, ?printed⟩
  case id =>
    exact Codec.lossless (Nat.zero_le _) (fun _ => ActionId.lawfulAt_codec)
      ActionId.writesWhole_codec
  case property =>
    exact Codec.lossless (by decide) Property.lawfulAt_codec Property.writesWhole_codec
  case param => exact Codec.lossless (by decide) Param.lawfulAt_codec Param.writesWhole_codec
  case datasource =>
    exact Codec.lossless (by decide) Datasource.lawfulAt_codec Datasource.writesWhole_codec
  case template =>
    exact Codec.lossless (by decide) RequestTemplate.lawfulAt_codec
      RequestTemplate.writesWhole_codec
  case action => exact Codec.lossless (by decide) Action.lawfulAt_codec Action.writesWhole_codec
  case request =>
    exact Codec.lossless (by decide) RunRequest.lawfulAt_codec RunRequest.writesWhole_codec
  case sent =>
    exact Codec.lossless (by decide) SentRequest.lawfulAt_codec SentRequest.writesWhole_codec
  case result => exact Codec.losslessAsTree (RunResult.lawfulAt_codec rfl)
  case printed =>
    intro s args network catalog name ledger a hargs hload hfind
    exact ⟨_, Program.run_print hargs hload hfind, a.decodeText_print⟩

/-- A catalogue with one action, loaded within a leap second. -/
def leapSurroundings : Surroundings where
  files _ := .ok ("[[actions]]\nname = \"ping\"\nplugin_id = \"rest\"".toList.map fun c =>
    c.toNat.toUInt8)
  environment _ := none
  ids _ := ⟨"a1"⟩
  clock _ := ⟨⟨2016, 12, 31, by decide⟩, 23, 59, 59, 1500000000, by decide⟩

/-- The action of the catalogue is printed and decoded. -/
theorem formats_lossless_ping :
    ∃ ledger a stdout,
      CommandLine.read leapSurroundings.environment ["--actions", "book.toml", "show", "ping"] =
        .ok ⟨some "book.toml", .print "ping"⟩ ∧
      Program.load leapSurroundings (some "book.toml") = .ok ledger ∧
      ledger.store.findNamed? "ping" = some a ∧
      Program.run leapSurroundings ["--actions", "book.toml", "show", "ping"] .offline =
        (.done stdout true, .offline) ∧
      decodeText Action.codec.decode stdout.toList = .ok a := by
  have hargs : CommandLine.read leapSurroundings.environment
      ["--actions", "book.toml", "show", "ping"] = .ok ⟨some "book.toml", .print "ping"⟩ := by
    decide +kernel
  have hstored : ((Program.load leapSurroundings (some "book.toml")).toOption.bind
      fun ledger => ledger.store.findNamed? "ping").isSome := by
    decide +kernel
  obtain ⟨a, hstored⟩ := Option.isSome_iff_exists.1 hstored
  obtain ⟨ledger, hload, hfind⟩ := Option.bind_eq_some_iff.1 hstored
  have hload : Program.load leapSurroundings (some "book.toml") = .ok ledger := by
    cases h : Program.load leapSurroundings (some "book.toml") with
    | error e => rw [h] at hload; cases hload
    | ok ledger' => rw [h] at hload; cases hload; rfl
  obtain ⟨-, -, -, -, -, -, -, -, -, hshow⟩ := formats_lossless
  obtain ⟨stdout, hrun, hdecode⟩ := hshow _ _ .offline _ _ ledger a hargs hload hfind
  exact ⟨ledger, a, stdout, hargs, hload, hfind, hrun, hdecode⟩

end ActionBook
