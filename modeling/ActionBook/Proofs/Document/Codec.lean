import ActionBook.Document.Codec
import ActionBook.Proofs.Document.Free
import ActionBook.Proofs.Timestamp.Reading

/-!
# `Document.Codec`: decoding what was encoded

`Codec.LawfulAt c r` says that the codec `c` gives every value back from the tree it writes, whatever
order the members of the objects in the tree are in, if it reads with `r`. The law is kept by every
way to put codecs together. For records (`lawfulAt_record`) it is a law of the fields: each has its
own name, and a value that is left out is the one that takes its place when it is missing.

How deep values nest matters to `r`: a codec of lists or records is lawful at a reading if the codecs
of its parts are at the next level.
-/

namespace ActionBook

namespace Codec

open Json (Reordered Distinct)

variable {α β : Type} {r inner : Reading}

/-- Read by `r`, the codec gives a value back from all trees that differ from the one it writes in
the order of members only; and it names no member twice. -/
structure LawfulAt (c : Codec α) (r : Reading) : Prop where
  distinct : ∀ x, (c.encode x).Distinct
  decode_eq : ∀ x tree, (c.encode x).Reordered tree → c.decode r (.ofJson tree) = .ok x

/-! ## Scalars -/

theorem lawfulAt_text : text.LawfulAt r where
  distinct _ := trivial
  decode_eq s tree h := by rw [Json.Reordered.eq_str h]; rfl

theorem lawfulAt_flag : flag.LawfulAt r where
  distinct _ := trivial
  decode_eq b tree h := by cases h; rfl

theorem lawfulAt_count : count.LawfulAt r where
  distinct _ := trivial
  decode_eq n tree h := by
    have hrange : 0 ≤ (n.toNat : Int) ∧ (n.toNat : Int) < 18446744073709551616 :=
      ⟨Int.natCast_nonneg _, Int.ofNat_lt.2 n.toNat_lt⟩
    rw [Json.Reordered.eq_int h, Node.ofJson]
    simp only [count, Decoder.count, if_pos hrange, Int.toNat_natCast, UInt64.ofNat_toNat]

theorem lawfulAt_time : time.LawfulAt r where
  distinct _ := trivial
  decode_eq t tree h := by
    rw [Json.Reordered.eq_str h, Node.ofJson]
    simp only [time, Decoder.time, Timestamp.parse_text]

theorem encode_time_ne_null (t : Timestamp) : time.encode t ≠ .null := by
  simp only [time]
  exact Json.noConfusion

/-! ## Values that may be missing -/

theorem ofJson_ne_null {tree : Json} (h : tree ≠ .null) : Node.ofJson tree ≠ .null := by
  cases tree with
  | null => exact absurd rfl h
  | _ => exact nofun

theorem optional_eq {decode : Decoder α} {node : Node} (h : node ≠ .null) :
    Decoder.optional decode r node = (decode r node).map some := by
  cases node with
  | null => exact absurd rfl h
  | _ => rfl

/-- Null can stand for a missing value if it stands for no other. -/
theorem lawfulAt_optional {c : Codec α} (h : c.LawfulAt r) (hnull : ∀ x, c.encode x ≠ .null) :
    c.optional.LawfulAt r where
  distinct o := by
    cases o with
    | none => trivial
    | some x => exact h.distinct x
  decode_eq o tree ho := by
    cases o with
    | none => cases ho; rfl
    | some x =>
      -- null is a reordering of null only, which is not written for a value
      have htree : tree ≠ .null := by
        rintro rfl
        have hx : (c.encode x).Reordered .null := ho
        generalize hencode : c.encode x = written at hx
        cases hx
        exact hnull x hencode
      show Decoder.optional c.decode r (.ofJson tree) = .ok (some x)
      rw [optional_eq (ofJson_ne_null htree), h.decode_eq x tree ho]
      rfl

theorem lawfulAt_iso {c : Codec α} {unwrap : β → α} {wrap : α → β} (h : c.LawfulAt r)
    (hwrap : ∀ x, wrap (unwrap x) = x) : (c.iso unwrap wrap).LawfulAt r where
  distinct x := h.distinct (unwrap x)
  decode_eq x tree hx := by
    show (c.decode r (.ofJson tree)).map wrap = .ok x
    rw [h.decode_eq _ tree hx]
    exact congrArg Except.ok (hwrap x)

/-! ## Lists -/

theorem items_ofItems {c : Codec α} (h : c.LawfulAt r) {xs : List α} {trees : List Json}
    (htrees : List.Forall₂ Reordered (xs.map c.encode) trees) :
    Decoder.items c.decode r (Node.ofItems trees) = .ok xs := by
  induction xs generalizing trees with
  | nil => cases htrees; rfl
  | cons x xs ih =>
    cases htrees with
    | cons hx hxs =>
      rw [Node.ofItems, Decoder.items, h.decode_eq _ _ hx, ih hxs]
      rfl

theorem lawfulAt_listOf {c : Codec α} (hr : r.deeper = .ok inner) (h : c.LawfulAt inner) :
    (listOf c).LawfulAt r where
  distinct xs := by
    refine Json.distinctItems_iff.2 fun item hitem => ?_
    obtain ⟨x, -, rfl⟩ := List.mem_map.1 hitem
    exact h.distinct x
  decode_eq xs tree hxs := by
    cases hxs with
    | @arr _ trees htrees =>
      show Decoder.listOf c.decode r (.list (Node.ofItems trees) .closed) = .ok xs
      simp only [Decoder.listOf, hr, items_ofItems h htrees, bind, Except.bind, Ending.check]

theorem ofList_toList (s : TextSet) : TextSet.ofList s.toList = s :=
  TextSet.ext fun _ => TextSet.mem_ofList

theorem lawfulAt_textSet (hr : r.deeper = .ok inner) : textSet.LawfulAt r where
  distinct s := (lawfulAt_listOf hr lawfulAt_text).distinct s.toList
  decode_eq s tree hs := by
    show (Decoder.listOf Decoder.text r (.ofJson tree)).map TextSet.ofList = .ok s
    have hlist := (lawfulAt_listOf hr lawfulAt_text).decode_eq s.toList tree hs
    rw [show Decoder.listOf Decoder.text r (.ofJson tree) = .ok s.toList from hlist]
    exact congrArg Except.ok (ofList_toList s)

/-! ## Free values -/

theorem lawfulAt_free (hr : r.levels = none) : free.LawfulAt r where
  distinct v := v.canonical.distinct
  decode_eq v tree hv := by
    have hvalue : tree.value = v := by
      rw [hv.value_eq v.canonical.distinct]
      exact JsonValue.eq_of_tree_eq v.canonical.tree_value
    show Decoder.freeTree r (.ofJson tree) = .ok v
    rw [Decoder.freeTree_ofJson (Reading.allows_of_levels_eq_none hr), hvalue]

end Codec

/-! ## Fields -/

/-- The value that stands for a field that is not there, in a record read by name. -/
def Absence.value? {α : Type} : Absence α → Option α
  | .refused => none
  | .filled x => some x
  | .filledByName x => some x

namespace Field

variable {α : Type} {r : Reading} {name : String} {codec : Codec α}

/-- A value of the field is given back, whether it is written or left out. -/
structure LawfulAt (field : Field α) (r : Reading) : Prop where
  codec : field.codec.LawfulAt r
  omitted : ∀ x, field.omits x → field.absence.value? = some x

theorem lawfulAt_required (h : codec.LawfulAt r) : (required name codec).LawfulAt r :=
  ⟨h, nofun⟩

theorem lawfulAt_defaulting {value : α} (h : codec.LawfulAt r) :
    (defaulting name codec value).LawfulAt r := ⟨h, nofun⟩

theorem lawfulAt_optional (h : codec.LawfulAt r) (hnull : ∀ x, codec.encode x ≠ .null) :
    (optional name codec).LawfulAt r where
  codec := Codec.lawfulAt_optional h hnull
  omitted o ho := by rw [Option.isNone_iff_eq_none.1 ho]; rfl

theorem lawfulAt_optionalByName (h : codec.LawfulAt r) (hnull : ∀ x, codec.encode x ≠ .null) :
    (optionalByName name codec).LawfulAt r where
  codec := Codec.lawfulAt_optional h hnull
  omitted o ho := by rw [Option.isNone_iff_eq_none.1 ho]; rfl

end Field

/-- A field with its value in a row. -/
structure FilledField where
  {type : Type}
  field : Field type
  value : type

namespace FilledField

/-- The name of the field. -/
abbrev name (e : FilledField) : String := e.field.name

/-- Whether the field is not written. -/
abbrev isOmitted (e : FilledField) : Bool := e.field.omits e.value

/-- The member written for the field. -/
abbrev member (e : FilledField) : String × Json := (e.name, e.field.codec.encode e.value)

end FilledField

namespace Fields

variable {ts : List Type} {r : Reading}

/-- The names of the fields. -/
def names : {ts : List Type} → Fields ts → List String
  | _, nil => []
  | _, cons field rest => field.name :: rest.names

/-- The fields with their values in a row. -/
def entries : {ts : List Type} → Fields ts → Row ts → List FilledField
  | _, nil, _ => []
  | _, cons field rest, (value, row) => ⟨field, value⟩ :: rest.entries row

/-- All fields are lawful. -/
def LawfulAt (r : Reading) : {ts : List Type} → Fields ts → Prop
  | _, nil => True
  | _, cons field rest => field.LawfulAt r ∧ rest.LawfulAt r

theorem map_name_entries (fields : Fields ts) (row : Row ts) :
    (fields.entries row).map FilledField.name = fields.names := by
  induction fields with
  | nil => rfl
  | cons field rest ih => exact congrArg (field.name :: ·) (ih row.2)

theorem name_mem_of_mem_entries {fields : Fields ts} {row : Row ts} {e : FilledField}
    (h : e ∈ fields.entries row) : e.name ∈ fields.names := by
  rw [← map_name_entries fields row]
  exact List.mem_map_of_mem h

theorem LawfulAt.of_mem {fields : Fields ts} (h : fields.LawfulAt r) {row : Row ts}
    {e : FilledField} (he : e ∈ fields.entries row) : e.field.LawfulAt r := by
  induction fields with
  | nil => cases he
  | cons field rest ih =>
    rcases List.mem_cons.1 he with rfl | he
    · exact h.1
    · exact ih h.2 he

/-- The members of the fields that are not left out are written. -/
theorem encode_eq (fields : Fields ts) (row : Row ts) :
    fields.encode row =
      ((fields.entries row).filter fun e => !e.isOmitted).map FilledField.member := by
  induction fields with
  | nil => rfl
  | cons field rest ih =>
    obtain ⟨value, row⟩ := row
    rw [encode, entries, ih row]
    cases homits : field.omits value <;> simp [FilledField.isOmitted, homits]

theorem mem_encode_iff {fields : Fields ts} {row : Row ts} {m : String × Json} :
    m ∈ fields.encode row ↔
      ∃ e ∈ fields.entries row, e.isOmitted = false ∧ e.member = m := by
  simp [encode_eq, and_assoc]

theorem nodup_names_encode {fields : Fields ts} (h : fields.names.Nodup) (row : Row ts) :
    (Json.names (fields.encode row)).Nodup := by
  have hsublist : (Json.names (fields.encode row)).Sublist fields.names := by
    rw [← map_name_entries fields row, encode_eq, Json.names, List.map_map]
    exact List.filter_sublist.map _
  exact h.sublist hsublist

/-! ### Places -/

/-- The places when the members of some names have been read: those of these names are filled with
the values of the row. -/
def slots (read : List String) : {ts : List Type} → Fields ts → Row ts → Slots ts
  | _, nil, _ => ()
  | _, cons field rest, (value, row) =>
    (if field.name ∈ read then some value else none, rest.slots read row)

theorem slots_nil (fields : Fields ts) (row : Row ts) : fields.slots [] row = fields.blank := by
  induction fields with
  | nil => rfl
  | cons field rest ih => exact congrArg (Prod.mk none) (ih row.2)

theorem slots_congr {read others : List String} {fields : Fields ts}
    (h : ∀ name ∈ fields.names, name ∈ read ↔ name ∈ others) (row : Row ts) :
    fields.slots read row = fields.slots others row := by
  induction fields with
  | nil => rfl
  | cons field rest ih =>
    obtain ⟨value, row⟩ := row
    obtain ⟨hfirst, hrest⟩ := List.forall_mem_cons.1 h
    rw [slots, slots, ih hrest]
    simp only [hfirst]
    rfl

theorem fill_of_ne {α : Type} {field : Field α} {name : String} (h : name ≠ field.name)
    (node : Node) (rest : Fields ts) (slot : Option α) (slots : Slots ts) :
    (cons field rest).fill r name node (slot, slots) =
      (rest.fill r name node slots).map fun filled => filled.map fun slots => (slot, slots) := by
  cases slot with
  | none => rw [fill, if_neg h]; rfl
  | some value => rw [fill, if_neg h]; rfl

/-- Reading the member of a field that has not been read fills its place. -/
theorem fill_slots {fields : Fields ts} (hnames : fields.names.Nodup) {row : Row ts}
    {e : FilledField} (he : e ∈ fields.entries row) {read : List String} (hfree : e.name ∉ read)
    {node : Node} (hnode : e.field.codec.decode r node = .ok e.value) :
    fields.fill r e.name node (fields.slots read row) =
      some (.ok (fields.slots (e.name :: read) row)) := by
  induction fields with
  | nil => cases he
  | cons field rest ih =>
    obtain ⟨value, row⟩ := row
    obtain ⟨hfirst, hrest⟩ := List.nodup_cons.1 hnames
    rcases List.mem_cons.1 he with rfl | he
    · have hslots : rest.slots (field.name :: read) row = rest.slots read row := by
        refine slots_congr (fun name hname => ?_) row
        have hne : name ≠ field.name := fun heq => hfirst (heq ▸ hname)
        simp [hne]
      rw [slots, slots, hslots, if_neg hfree, if_pos List.mem_cons_self, fill, if_pos rfl, hnode]
      rfl
    · have hne : e.name ≠ field.name := fun heq => hfirst (heq ▸ name_mem_of_mem_entries he)
      have hmem : field.name ∈ e.name :: read ↔ field.name ∈ read := by simp [hne.symm]
      rw [slots, slots, fill_of_ne hne, ih hrest he]
      simp only [hmem]
      rfl

/-- Reading members of different fields, in any order, fills their places. -/
theorem fillAll_slots {fields : Fields ts} (hnames : fields.names.Nodup) {row : Row ts}
    {members : List (String × Json)} (hmembers : (Json.names members).Nodup)
    (hdecode : ∀ m ∈ members, ∃ e ∈ fields.entries row, e.name = m.1 ∧
      e.field.codec.decode r (.ofJson m.2) = .ok e.value)
    {read : List String} (hread : ∀ name ∈ Json.names members, name ∉ read) :
    fields.fillAll r (Node.ofMembers members) (fields.slots read row) =
      .ok (fields.slots ((Json.names members).reverse ++ read) row) := by
  -- the filled places are those of the names read so far, whichever these are
  induction members generalizing read with
  | nil => rfl
  | cons m members ih =>
    obtain ⟨name, tree⟩ := m
    obtain ⟨⟨e, he, rfl, hnode⟩, hrest⟩ := List.forall_mem_cons.1 hdecode
    obtain ⟨hfirst, hothers⟩ := List.nodup_cons.1 hmembers
    obtain ⟨hfree, hfrees⟩ := List.forall_mem_cons.1 hread
    have hread' : ∀ name ∈ Json.names members, name ∉ e.name :: read := by
      intro name hname hmem
      rcases List.mem_cons.1 hmem with rfl | hmem
      · exact hfirst hname
      · exact hfrees name hname hmem
    rw [Node.ofMembers, fillAll, fill_slots hnames he hfree hnode]
    simp only [ih hothers hrest hread', Json.names, List.map_cons, List.reverse_cons,
      List.append_assoc, List.singleton_append]

theorem complete_absent {α : Type} {field : Field α} {value : α}
    (h : field.absence.value? = some value) (rest : Fields ts) (slots : Slots ts) :
    (cons field rest).complete (none, slots) =
      (rest.complete slots).map fun row => (value, row) := by
  cases habsence : field.absence with
  | refused => rw [habsence] at h; cases h
  | filled x => rw [habsence] at h; cases h; simp only [complete, habsence]; rfl
  | filledByName x => rw [habsence] at h; cases h; simp only [complete, habsence]; rfl

/-- If every field has been read or has a value of its own for when it is missing, the row is
complete. -/
theorem complete_slots {fields : Fields ts} {row : Row ts} {read : List String}
    (h : ∀ e ∈ fields.entries row, e.name ∈ read ∨ e.field.absence.value? = some e.value) :
    fields.complete (fields.slots read row) = .ok row := by
  induction fields with
  | nil => rfl
  | cons field rest ih =>
    obtain ⟨value, row⟩ := row
    obtain ⟨hfirst, hrest⟩ := List.forall_mem_cons.1 h
    have hcomplete := ih hrest
    rw [slots]
    by_cases hmem : field.name ∈ read
    · rw [if_pos hmem, complete, hcomplete]
      rfl
    · rw [if_neg hmem, complete_absent (hfirst.resolve_left hmem), hcomplete]
      rfl

/-! ### Records -/

/-- The row of the members written for it, in any order. -/
theorem ofMembers_eq {fields : Fields ts} (hnames : fields.names.Nodup) (hfields : fields.LawfulAt r)
    {row : Row ts} {inPlace others : List (String × Json)}
    (h : List.Forall₂ Json.ReorderedMember (fields.encode row) inPlace)
    (hperm : inPlace.Perm others) :
    fields.ofMembers r (Node.ofMembers others) .closed = .ok row := by
  have hwritten : Json.names inPlace = Json.names (fields.encode row) :=
    forall₂_map_eq h fun _ _ _ ho => by cases ho; rfl
  have hothers : (Json.names inPlace).Perm (Json.names others) := hperm.map Prod.fst
  -- Every member has been written for a field and reordered within itself at most.
  have hdecode : ∀ m ∈ others, ∃ e ∈ fields.entries row, e.name = m.1 ∧
      e.field.codec.decode r (.ofJson m.2) = .ok e.value := by
    intro m hm
    obtain ⟨written, hmem, hreordered⟩ := exists_of_mem_right h (hperm.mem_iff.2 hm)
    obtain ⟨e, he, -, rfl⟩ := mem_encode_iff.1 hmem
    cases hreordered with
    | mk _ htree => exact ⟨e, he, rfl, (hfields.of_mem he).codec.decode_eq _ _ htree⟩
  have hnodup : (Json.names others).Nodup :=
    hothers.nodup_iff.1 (hwritten ▸ nodup_names_encode hnames row)
  have hfill : fields.fillAll r (Node.ofMembers others) (fields.slots [] row) =
      .ok (fields.slots ((Json.names others).reverse ++ []) row) :=
    fillAll_slots hnames hnodup hdecode fun _ _ => List.not_mem_nil
  have hcomplete : fields.complete (fields.slots ((Json.names others).reverse ++ []) row) =
      .ok row := by
    -- a field that has not been read is one that was left out
    refine complete_slots fun e he => ?_
    cases homitted : e.isOmitted with
    | true => exact .inr ((hfields.of_mem he).omitted _ homitted)
    | false =>
      have hmem : e.name ∈ Json.names (fields.encode row) :=
        List.mem_map_of_mem (mem_encode_iff.2 ⟨e, he, homitted, rfl⟩)
      refine .inl (List.mem_append_left _ (List.mem_reverse.2 ?_))
      exact hothers.mem_iff.1 (hwritten ▸ hmem)
  rw [slots_nil] at hfill
  rw [ofMembers, hfill]
  exact hcomplete

end Fields

namespace Codec

variable {α β : Type} {r inner : Reading} {ts : List Type} {typeName : String} {fields : Fields ts}
  {toRow : α → Row ts} {ofRow : Row ts → α}

/-- Records come back if their fields have different names and are lawful one level deeper. -/
theorem lawfulAt_record (hr : r.deeper = .ok inner) (hnames : fields.names.Nodup)
    (hfields : fields.LawfulAt inner) (hrow : ∀ x, ofRow (toRow x) = x) :
    (record typeName fields toRow ofRow).LawfulAt r where
  distinct x := by
    refine ⟨Fields.nodup_names_encode hnames _, Json.distinctMembers_iff.2 fun m hm => ?_⟩
    obtain ⟨e, he, -, rfl⟩ := Fields.mem_encode_iff.1 hm
    exact (hfields.of_mem he).codec.distinct _
  decode_eq x tree h := by
    cases h with
    | obj h hperm =>
      simp only [record, Node.ofJson, hr, Fields.ofMembers_eq hnames hfields h hperm, Except.map,
        hrow]

theorem encode_record_ne_null (x : α) : (record typeName fields toRow ofRow).encode x ≠ .null :=
  Json.noConfusion

/-! ## Whole numbers -/

/-- All numbers that the codec writes are whole. -/
def WritesWhole (c : Codec α) : Prop := ∀ x, (c.encode x).Whole

theorem writesWhole_text : text.WritesWhole := fun _ => trivial

theorem writesWhole_flag : flag.WritesWhole := fun _ => trivial

theorem writesWhole_time : time.WritesWhole := fun _ => trivial

theorem writesWhole_count : count.WritesWhole := by
  intro n
  have hlt := n.toNat_lt
  show Json.Fits n.toNat
  unfold Json.Fits
  omega

theorem writesWhole_listOf {c : Codec α} (h : c.WritesWhole) : (listOf c).WritesWhole := by
  refine fun xs => Json.wholeItems_iff.2 fun item hitem => ?_
  obtain ⟨x, -, rfl⟩ := List.mem_map.1 hitem
  exact h x

theorem writesWhole_textSet : textSet.WritesWhole := fun s =>
  writesWhole_listOf writesWhole_text s.toList

theorem writesWhole_optional {c : Codec α} (h : c.WritesWhole) : c.optional.WritesWhole
  | none => trivial
  | some x => h x

theorem writesWhole_iso {c : Codec α} (h : c.WritesWhole) (unwrap : β → α) (wrap : α → β) :
    (c.iso unwrap wrap).WritesWhole := fun x => h (unwrap x)

end Codec

/-- All numbers that the fields write are whole. -/
def Fields.WriteWhole : {ts : List Type} → Fields ts → Prop
  | _, nil => True
  | _, cons field rest => field.codec.WritesWhole ∧ rest.WriteWhole

theorem Fields.WriteWhole.whole_encode {ts : List Type} {fields : Fields ts}
    (h : fields.WriteWhole) (row : Row ts) : Json.WholeMembers (fields.encode row) := by
  induction fields with
  | nil => trivial
  | cons field rest ih =>
    obtain ⟨value, row⟩ := row
    rw [encode]
    split
    · exact ih h.2 row
    · exact ⟨h.1 value, ih h.2 row⟩

theorem Codec.writesWhole_record {α : Type} {ts : List Type} {typeName : String}
    {fields : Fields ts} {toRow : α → Row ts} {ofRow : Row ts → α} (h : fields.WriteWhole) :
    (record typeName fields toRow ofRow).WritesWhole := fun x => h.whole_encode (toRow x)

end ActionBook
