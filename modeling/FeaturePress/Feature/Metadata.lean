import FeaturePress.Json.Basic
import FeaturePress.Path
import FeaturePress.Time.Instant

/-! The record of cached feature files: for every source the cached file and when it was written.
-/

namespace FeaturePress

/-- A cached file and when it was written. -/
structure CachedFile where
  path : Path
  updatedAt : Instant
deriving DecidableEq

/-- The cached files by the path of their source. -/
abbrev Metadata := SortedMap Text CachedFile

namespace Metadata

/-- The object of a cached file. -/
def entryToJson (entry : CachedFile) : Json :=
  .object [("filePath".toList, .text entry.path.spelling),
    ("updatedAt".toList, .text entry.updatedAt.write)]

/-- The cached file that an object stands for. -/
def entryOfJson? (value : Json) : Option CachedFile :=
  match value.asRecord? ["filePath".toList, "updatedAt".toList] with
  | some [path, time] => do
    return ⟨⟨← path.asText?⟩, ← time.asText?.bind Instant.ofText?⟩
  | _ => none

/-- The object of a record, with the sources as names. -/
def toJson (metadata : Metadata) : Json :=
  .object (metadata.toList.map fun (source, entry) => (source, entryToJson entry))

/-- The record that an object stands for. -/
def ofJson? (value : Json) : Option Metadata :=
  value.asMap? entryOfJson?

end Metadata

end FeaturePress
