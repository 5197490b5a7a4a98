import ActionBook.Document.Decoder

/-!
# `Document.Codec`: both directions of a format in one description

A `Codec` writes values of a type as JSON trees and decodes them from nodes. The codec of a record
type is put together from a list of its fields; the fields are written in that order, may be read by
name in any order, and may be read by position from a list.
-/

namespace ActionBook

/-- How values of a type are written and read. -/
structure Codec (α : Type) where
  encode : α → Json
  decode : Decoder α

namespace Codec

/-- Texts. -/
def text : Codec String := ⟨.str, Decoder.text⟩

/-- Truth values. -/
def flag : Codec Bool := ⟨.bool, Decoder.flag⟩

/-- Natural numbers of 64 bits. -/
def count : Codec UInt64 := ⟨fun n => .int n.toNat, Decoder.count⟩

/-- Moments, written as texts. -/
def time : Codec Timestamp := ⟨fun t => .str t.text, Decoder.time⟩

/-- Any JSON values. -/
def free : Codec JsonValue := ⟨JsonValue.tree, Decoder.free⟩

/-- Values that may be missing, null standing for a missing one. -/
def optional {α : Type} (c : Codec α) : Codec (Option α) :=
  ⟨fun | none => .null | some x => c.encode x, Decoder.optional c.decode⟩

/-- Lists of values. -/
def listOf {α : Type} (c : Codec α) : Codec (List α) :=
  ⟨fun xs => .arr (xs.map c.encode), Decoder.listOf c.decode⟩

/-- Sets of texts, written as lists in ascending order. -/
def textSet : Codec TextSet := ⟨fun s => .arr (s.toList.map .str), Decoder.textSet⟩

/-- A type written as another that holds the same values. -/
def iso {α β : Type} (c : Codec α) (unwrap : β → α) (wrap : α → β) : Codec β :=
  ⟨fun x => c.encode (unwrap x), fun r node => (c.decode r node).map wrap⟩

end Codec

/-! ## Fields -/

/-- What a field holds that is not there. -/
inductive Absence (α : Type) where
  /-- Nothing: the field has to be there. -/
  | refused
  /-- A default value. -/
  | filled (value : α)
  /-- A default value, if the record is read by name; by position the field has to be there. -/
  | filledByName (value : α)

/-- A field of a record type. -/
structure Field (α : Type) where
  name : String
  codec : Codec α
  absence : Absence α
  /-- The values for which the field is not written. -/
  omits : α → Bool

namespace Field

/-- A field that has to be there. -/
def required {α : Type} (name : String) (codec : Codec α) : Field α :=
  ⟨name, codec, .refused, fun _ => false⟩

/-- A field that is always written and has a default. -/
def defaulting {α : Type} (name : String) (codec : Codec α) (value : α) : Field α :=
  ⟨name, codec, .filled value, fun _ => false⟩

/-- A field that is written only if there is a value for it. -/
def optional {α : Type} (name : String) (codec : Codec α) : Field (Option α) :=
  ⟨name, codec.optional, .filled none, Option.isNone⟩

/-- A field that is written only if there is a value for it, but needs its place in a list. -/
def optionalByName {α : Type} (name : String) (codec : Codec α) : Field (Option α) :=
  ⟨name, codec.optional, .filledByName none, Option.isNone⟩

end Field

/-- The fields of a record type, in order, with the types of their values. -/
inductive Fields : List Type → Type 1 where
  | nil : Fields []
  | cons {α : Type} {ts : List Type} (field : Field α) (rest : Fields ts) : Fields (α :: ts)

/-- A value for every field. -/
def Row : List Type → Type
  | [] => Unit
  | α :: ts => α × Row ts

/-- A place for every field, with a value or without one. -/
def Slots : List Type → Type
  | [] => Unit
  | α :: ts => Option α × Slots ts

namespace Fields

variable {ts : List Type}

/-- The number of fields. -/
def length : {ts : List Type} → Fields ts → Nat
  | _, nil => 0
  | _, cons _ rest => rest.length + 1

/-- Places without values. -/
def blank : {ts : List Type} → Fields ts → Slots ts
  | _, nil => ()
  | _, cons _ rest => (none, rest.blank)

/-- The members written for a row. -/
def encode : {ts : List Type} → Fields ts → Row ts → List (String × Json)
  | _, nil, _ => []
  | _, cons field rest, (value, row) =>
    if field.omits value then rest.encode row
    else (field.name, field.codec.encode value) :: rest.encode row

/-! ## By name -/

/-- Puts the value of a node into the field of the given name, which has to be free. Nothing, if
there is no such field. -/
def fill (r : Reading) (name : String) (node : Node) :
    {ts : List Type} → Fields ts → Slots ts → Option (Except DecodeError (Slots ts))
  | _, nil, _ => none
  | _, cons field rest, (slot, slots) =>
    if name = field.name then
      match slot with
      | some _ => some (.error (.duplicateField name))
      | none => some ((field.codec.decode r node).map fun value => (some value, slots))
    else (fill r name node rest slots).map fun filled => filled.map fun slots => (slot, slots)

/-- Fills fields from members in their order, passing over those with other names. -/
def fillAll (r : Reading) (fields : Fields ts) :
    List (Option String × Node) → Slots ts → Except DecodeError (Slots ts)
  | [], slots => .ok slots
  | (none, _) :: _, _ => .error (.malformed .illFormed)
  | (some name, node) :: members, slots =>
    match fields.fill r name node slots with
    | some filled =>
      match filled with
      | .ok slots => fillAll r fields members slots
      | .error e => .error e
    | none =>
      match node.skipFault? with
      | some fault => .error (.malformed fault)
      | none => fillAll r fields members slots

/-- The row of the filled places, with defaults in the others; the first field that lacks both is
the error. -/
def complete : {ts : List Type} → Fields ts → Slots ts → Except DecodeError (Row ts)
  | _, nil, _ => .ok ()
  | _, cons field rest, (slot, slots) =>
    match slot, field.absence with
    | some value, _ => (rest.complete slots).map fun row => (value, row)
    | none, .refused => .error (.missingField field.name)
    | none, .filled value => (rest.complete slots).map fun row => (value, row)
    | none, .filledByName value => (rest.complete slots).map fun row => (value, row)

/-- The row of a record's members. -/
def ofMembers (r : Reading) (fields : Fields ts) (members : List (Option String × Node))
    (ending : Ending) : Except DecodeError (Row ts) :=
  match fillAll r fields members fields.blank with
  | .error e => .error e
  | .ok slots =>
    match ending.check with
    | .error e => .error e
    | .ok () => fields.complete slots

/-! ## By position -/

/-- Decodes one item for every field, and gives the items that are left. `index` counts the fields
before, `whole` describes the whole record. -/
def ofItemsFrom (r : Reading) (ending : Ending) (whole : String) :
    {ts : List Type} → Fields ts → (index : Nat) → List Node →
      Except DecodeError (Row ts × List Node)
  | _, nil, _, nodes => .ok ((), nodes)
  | _, cons field rest, index, node :: nodes =>
    match field.codec.decode r node with
    | .error e => .error e
    | .ok value =>
      (ofItemsFrom r ending whole rest (index + 1) nodes).map fun (row, left) =>
        ((value, row), left)
  | _, cons field rest, index, [] =>
    match ending.check with
    | .error e => .error e
    | .ok () =>
      match field.absence with
      | .filled value =>
        (ofItemsFrom r ending whole rest (index + 1) []).map
          fun (row, left) => ((value, row), left)
      | _ => .error (.wrongLength index whole)

/-- What follows from the items left over after the last field. -/
def checkSurplus (r : Reading) (ending : Ending) (total : Nat) (left : List Node) :
    Except DecodeError Unit :=
  match r.surplus, left with
  | .ignored, _ => .ok ()
  | _, [] => ending.check
  | .counted, _ :: _ => .error (.wrongLength total "fewer elements in array")
  | .illFormed, _ :: _ => .error (.malformed .illFormed)

/-- The row of a list's items. -/
def ofItems (r : Reading) (typeName : String) (fields : Fields ts) (nodes : List Node)
    (ending : Ending) : Except DecodeError (Row ts) :=
  let plural := if fields.length = 1 then "element" else "elements"
  let whole := s!"struct {typeName} with {fields.length} {plural}"
  match ofItemsFrom r ending whole fields 0 nodes with
  | .error e => .error e
  | .ok (row, left) =>
    match checkSurplus r ending nodes.length left with
    | .error e => .error e
    | .ok () => .ok row

end Fields

/-- The codec of a record type: it is written as an object with the fields in order, and read from
an object by name or from a list by position. -/
def Codec.record {α : Type} {ts : List Type} (typeName : String) (fields : Fields ts)
    (toRow : α → Row ts) (ofRow : Row ts → α) : Codec α where
  encode x := .obj (fields.encode (toRow x))
  decode r node :=
    match node with
    | .record members ending =>
      match r.deeper with
      | .error e => .error e
      | .ok inner => (fields.ofMembers inner members ending).map ofRow
    | .list nodes ending =>
      match r.deeper with
      | .error e => .error e
      | .ok inner => (fields.ofItems inner typeName nodes ending).map ofRow
    | _ => .error (node.mismatch r s!"struct {typeName}")

end ActionBook
