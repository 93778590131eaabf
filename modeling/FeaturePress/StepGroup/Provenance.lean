import FeaturePress.Json.Printer
import FeaturePress.Json.Reader

/-! The record of modification times from which it is decided whether step groups are up to date:
one time for each source document, and one for each of the two generated artifacts under a
reserved key.
-/

namespace FeaturePress

/-- Modification times in milliseconds by source key and reserved key. -/
abbrev Provenance := SortedMap Text Nat

namespace Provenance

/-- The reserved key of the file of bindings. -/
def bindingsKey : Text := "__stepGroupDef".toList

/-- The reserved key of the catalogue document. -/
def catalogKey : Text := "__stepGroupCache".toList

/-- The recorded sources. -/
def sources (record : Provenance) : List Text :=
  record.keys.filter fun key => key ≠ bindingsKey && key ≠ catalogKey

/-- The record with the time of an artifact; an absent artifact has no entry. -/
def setArtifact (record : Provenance) (key : Text) : Option Nat → Provenance
  | some time => record.insert key time
  | none => record.erase key

/-- The record with the times of both artifacts. -/
def setArtifacts (record : Provenance) (bindings catalog : Option Nat) : Provenance :=
  setArtifact (setArtifact record bindingsKey bindings) catalogKey catalog

/-- The object of a record, with a time under every key. -/
def toJson (record : Provenance) : Json :=
  .object (record.toList.map fun (key, time) => (key, .integer time))

/-- The record that an object stands for. -/
def ofJson? (value : Json) : Option Provenance :=
  value.asMap? Json.asUnsigned?

end Provenance

end FeaturePress
