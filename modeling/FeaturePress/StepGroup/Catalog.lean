import FeaturePress.Json.Printer
import FeaturePress.Json.Reader
import FeaturePress.StepGroup.Basic

/-! The catalogue of known step groups by name, and its document. -/

namespace FeaturePress

/-- What the catalogue keeps of a group under its name. -/
structure CatalogEntry where
  description : Text
  steps : List Text
deriving DecidableEq

/-- The known groups, in the order of their names. -/
abbrev Catalog := SortedMap Text CatalogEntry

namespace Catalog

/-- The catalogue with a group, which replaces one of its name. -/
def put (catalog : Catalog) (group : StepGroup) : Catalog :=
  catalog.insert group.name ⟨group.description, group.steps⟩

/-- The catalogue of some groups, the last of a name winning. -/
def ofGroups (groups : List StepGroup) : Catalog :=
  groups.foldl put SortedMap.empty

/-- The entry that a written name stands for: as it is, or else as a full name. -/
def lookup? (catalog : Catalog) (written : Text) : Option CatalogEntry :=
  catalog.find? written <|> (StepGroup.fullName? written).bind catalog.find?

/-- The object of an entry. -/
def entryToJson (entry : CatalogEntry) : Json :=
  .object [("description".toList, .text entry.description),
    ("steps".toList, .list (entry.steps.map .text))]

/-- The entry that an object stands for. -/
def entryOfJson? (value : Json) : Option CatalogEntry :=
  match value.asRecord? ["description".toList, "steps".toList] with
  | some [description, steps] => do
    return ⟨← description.asText?, ← steps.asList? Json.asText?⟩
  | _ => none

/-- The object of a catalogue, with the groups as names. -/
def toJson (catalog : Catalog) : Json :=
  .object (catalog.toList.map fun (name, entry) => (name, entryToJson entry))

/-- The catalogue that an object stands for. -/
def ofJson? (value : Json) : Option Catalog :=
  value.asMap? entryOfJson?

end Catalog

end FeaturePress
