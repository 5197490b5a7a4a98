import ActionBook.Action.Format
import ActionBook.Text.Utf8
import ActionBook.Toml.Reader

/-!
# `Catalog`: actions declared in a file

A catalogue is a TOML document that lists actions under `actions`; everything else in it is passed
over.
-/

namespace ActionBook

/-- Why a file gives no octets. -/
inductive FileFault where
  | notFound
  | isDirectory
  /-- Something else, described by the system. -/
  | other (reason : String)
deriving DecidableEq, Repr

/-- Why a file gives no catalogue. -/
inductive CatalogError where
  /-- There is nothing to read at a path. -/
  | absent (path : String) (fault : FileFault)
  /-- The file at a path is no text. -/
  | notText (path : String)
  /-- The text is no TOML document. -/
  | notToml
  /-- The document holds no actions. -/
  | undecodable (cause : DecodeError)
deriving DecidableEq, Repr

namespace CatalogError

/-- Whether the file could not be read, in contrast to its text. -/
def isUnreadable : CatalogError → Bool
  | .absent _ _ | .notText _ => true
  | .notToml | .undecodable _ => false

/-- The kind of fault of a file that could not be read. -/
def faultKind? : CatalogError → Option String
  | .absent _ .notFound => some "NotFound"
  | .absent _ .isDirectory => some "IsADirectory"
  | .absent _ (.other _) => some "Other"
  | .notText _ => some "InvalidData"
  | .notToml | .undecodable _ => none

/-- What is said about the error. About a text that is no document, and about a text in it that is
no moment, nothing is said. -/
def message? : CatalogError → Option String
  | .absent path .notFound =>
    some s!"cannot read catalogue {path}: No such file or directory (os error 2)"
  | .absent path .isDirectory =>
    some s!"cannot read catalogue {path}: Is a directory (os error 21)"
  | .absent path (.other reason) => some s!"cannot read catalogue {path}: {reason}"
  | .notText path => some s!"cannot read catalogue {path}: stream did not contain valid UTF-8"
  | .notToml => none
  | .undecodable (.timestamp _) => none
  | .undecodable cause => cause.message?

end CatalogError

/-- Actions declared in a file. -/
structure Catalog where
  actions : List Action

namespace Catalog

/-- The format of a catalogue. -/
def codec : Codec Catalog :=
  .record "ActionCatalog"
    (.cons (.defaulting "actions" (.listOf Action.codec) []) .nil)
    (fun c => (c.actions, ()))
    fun (actions, ()) => ⟨actions⟩

/-- How documents are read: to any depth, with floating-point numbers always written out, and
without a look at items that no field is there for. -/
def reading : Reading where
  levels := none
  floats := ⟨none, none⟩
  surplus := .ignored

/-- The catalogue in a text. -/
def ofText (text : List Char) : Except CatalogError Catalog :=
  match Toml.parse text with
  | none => .error .notToml
  | some document =>
    match codec.decode reading document.node with
    | .ok catalog => .ok catalog
    | .error cause => .error (.undecodable cause)

/-- The catalogue in what was found at a path. -/
def ofFile (path : String) (found : Except FileFault Text.Octets) : Except CatalogError Catalog :=
  match found with
  | .error fault => .error (.absent path fault)
  | .ok octets =>
    match Text.decode? octets with
    | none => .error (.notText path)
    | some text => ofText text

end Catalog

end ActionBook
