import FeaturePress.Disk.Write
import FeaturePress.Feature.Metadata
import FeaturePress.Json.Printer
import FeaturePress.Json.Reader
import FeaturePress.StepGroup.Catalog
import FeaturePress.StepGroup.Provenance

/-! State documents: values kept as JSON files that are read and written as a whole. -/

namespace FeaturePress

/-- Values that can be kept in a document. -/
class Storable (α : Type) where
  toJson : α → Json
  ofJson? : Json → Option α

instance : Storable Catalog := ⟨Catalog.toJson, Catalog.ofJson?⟩

instance : Storable Provenance := ⟨Provenance.toJson, Provenance.ofJson?⟩

instance : Storable Metadata := ⟨Metadata.toJson, Metadata.ofJson?⟩

/-- Why a document cannot be used. -/
inductive DocumentError where
  | malformed (path : Path)
  | simulated
  | unreadable (cause : FileError)
deriving DecidableEq

namespace DocumentError

/-- The start of every message about a document that is there. -/
def failureOf (name reason : Text) : Text :=
  "cache document '".toList ++ name ++ "' is invalid: ".toList ++ reason

/-- The text of a document error. -/
def message : DocumentError → Text
  | .malformed path => failureOf path.spelling malformedReason
  | .simulated => failureOf "<memory>".toList "simulated corruption".toList
  | .unreadable cause => cause.message

end DocumentError

namespace Document

variable {α : Type} [Storable α]

/-- The text of a document. -/
def write (value : α) : Text :=
  (Storable.toJson value).pretty

/-- The value of the text of a document. -/
def read? (text : Text) : Option α :=
  (Json.read? text).bind Storable.ofJson?

/-- The value of a document on a disk, if there is such a document. -/
def load (disk : Disk) (path : Path) : Except DocumentError (Option α) :=
  match disk.readOptional path with
  | .error cause => .error (.unreadable cause)
  | .ok none => .ok none
  | .ok (some text) =>
    match read? text with
    | some value => .ok (some value)
    | none => .error (.malformed path)

/-- Writes a value to a document. -/
def save (disk : Disk) (path : Path) (value : α) : Except DocumentError Unit × Disk :=
  match disk.write path (.text (write value)) with
  | (.ok (), written) => (.ok (), written)
  | (.error cause, written) => (.error (.unreadable cause), written)

/-- The text of entries in their order, whose keys may be any scalars. Keys that are no scalars
make a document that cannot be written.
-/
def ofEntries (path : Path) (entries : List (Json × Json)) : Except DocumentError Text :=
  match entries.mapM fun (key, value) => key.memberName?.map (·, value.canonical) with
  | some members => .ok (Json.object members).pretty
  | none => .error (.malformed path)

end Document

/-- The catalogue of a disk; a missing or unusable one counts as empty. -/
def Catalog.loadOrEmpty (disk : Disk) (path : Path) : Catalog :=
  match Document.load disk path with
  | .ok (some catalog) => catalog
  | _ => SortedMap.empty

end FeaturePress
