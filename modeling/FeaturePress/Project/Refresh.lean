import FeaturePress.Disk.FeatureFiles
import FeaturePress.Project.Command
import FeaturePress.StepGroup.Bindings
import FeaturePress.StepGroup.Document

/-! Keeping the catalogue of step groups and the file of bindings up to date. The modification times
of the documents and of both artifacts are compared with those on record: if all agree nothing is
done; if only documents have changed their groups are read again; otherwise everything is.
-/

namespace FeaturePress

/-- What is read again. -/
inductive Scope where
  | full
  | incremental (changed : List Text)
deriving DecidableEq

/-- The outcome of a refresh: nothing was done, or the artifacts were made again, with the number
of groups and whether the content of each artifact has changed.
-/
inductive Refresh where
  | fresh
  | regenerated (scope : Scope) (groups : Nat) (catalogWritten bindingsWritten : Bool)
deriving DecidableEq

namespace Refresh

/-- Whether the artifacts were made again. -/
def isRegenerated : Refresh → Bool
  | .fresh => false
  | .regenerated .. => true

/-- A step-group document: its key on record, its path and when it was last changed. -/
structure Source where
  key : Text
  path : Path
  modified : Option Nat
deriving DecidableEq

/-- A path as a source, where the key is the path from the directory of documents on. -/
def sourceAt (disk : Disk) (root path : Path) : Except FileError Source :=
  (disk.recordedTime path).map fun time =>
    ⟨(Path.relativeTo? root path).getD path.spelling, path, time⟩

/-- The step-group documents in the order of their paths. -/
def sources (files : StepGroupFiles) (disk : Disk) : Except FileError (List Source) :=
  match disk.featureFiles files.sourceDirectory [] with
  | .error error => .error error
  | .ok paths => paths.mapM (sourceAt disk files.sourceDirectory)

/-- The times of the file of bindings and of the catalogue. -/
structure ArtifactTimes where
  bindings : Option Nat
  catalog : Option Nat
deriving DecidableEq

/-- When the artifacts were last changed. -/
def artifactTimes (files : StepGroupFiles) (disk : Disk) : Except FileError ArtifactTimes :=
  match disk.recordedTime files.bindings with
  | .error error => .error error
  | .ok bindings => (disk.recordedTime files.catalog).map fun catalog => ⟨bindings, catalog⟩

/-- The documents whose time is not the one on record. -/
def changed (record : Provenance) (found : List Source) : List Source :=
  found.filter fun source => record.find? source.key ≠ source.modified

/-- Whether a document on record is no longer there. -/
def hasRemoved (record : Provenance) (found : List Source) : Bool :=
  record.sources.any fun key => !found.any (·.key = key)

/-- Whether the artifacts are those on record. -/
def artifactsMatch (record : Provenance) (times : ArtifactTimes) : Bool :=
  record.find? Provenance.bindingsKey = times.bindings &&
    record.find? Provenance.catalogKey = times.catalog

/-- What has to be done: nothing, reading all documents, or reading those that have changed. -/
inductive Plan where
  | nothing
  | all
  | only (documents : List Source)
deriving DecidableEq

/-- The plan that follows from a record and what is found; without a record all is read. -/
def plan (force : Bool) (record : Option Provenance) (found : List Source)
    (times : ArtifactTimes)
    : Plan :=
  match record with
  | none => .all
  | some record =>
    if force || hasRemoved record found || !artifactsMatch record times then .all
    else
      match changed record found with
      | [] => .nothing
      | documents => .only documents

/-- A catalogue with the groups of some documents put into it in order. -/
def gather (disk : Disk) : List Source → Catalog → Except CommandError Catalog
  | [], catalog => .ok catalog
  | source :: rest, catalog =>
    match disk.read source.path with
    | .error cause => .error (.file cause)
    | .ok text =>
      match StepGroup.ofDocument text source.path.spelling with
      | .error cause => .error (.stepGroup cause)
      | .ok groups => gather disk rest (groups.foldl Catalog.put catalog)

/-- The catalogue on a disk, if there is a usable one. -/
def existingCatalog? (files : StepGroupFiles) (disk : Disk) : Option Catalog :=
  match Document.load disk files.catalog with
  | .ok catalog => catalog
  | .error _ => none

/-- The scope of a plan that does something, the documents to read and the catalogue to put their
groups into. Without a catalogue everything is read.
-/
def scopeOf (existing : Option Catalog) (found : List Source)
    : Plan → Option (Scope × List Source × Catalog)
  | .nothing => none
  | .all => some (.full, found, SortedMap.empty)
  | .only documents =>
    match existing with
    | some catalog => some (.incremental (documents.map Source.key), documents, catalog)
    | none => some (.full, found, SortedMap.empty)

/-- The record of some documents, leaving out those that are gone. -/
def timesOf (disk : Disk) : List Source → Provenance → Except FileError Provenance
  | [], record => .ok record
  | source :: rest, record =>
    match disk.recordedTime source.path with
    | .error error => .error error
    | .ok none => timesOf disk rest record
    | .ok (some time) => timesOf disk rest (record.insert source.key time)

/-- The record of the present times. -/
def presentRecord (files : StepGroupFiles) (found : List Source) (disk : Disk)
    : Except FileError Provenance :=
  match timesOf disk found SortedMap.empty with
  | .error error => .error error
  | .ok record =>
    (artifactTimes files disk).map fun times =>
      record.setArtifacts times.bindings times.catalog

/-- Writes both artifacts where their content changes, and records the times. -/
def regenerate (files : StepGroupFiles) (found : List Source) (scope : Scope)
    (catalog : Catalog)
    : Command Refresh := do
  let catalogWritten ← Command.change (·.writeIfChanged files.catalog (Document.write catalog))
  let bindingsWritten ← Command.change (·.writeIfChanged files.bindings (Bindings.file catalog))
  Command.saveProvenance (← Command.look (presentRecord files found))
  return .regenerated scope catalog.size catalogWritten bindingsWritten

/-- Brings the artifacts up to date. -/
def run (files : StepGroupFiles) (force : Bool) : Command Refresh := do
  let found ← Command.look (sources files)
  let times ← Command.look (artifactTimes files)
  let workspace ← get
  let record := workspace.provenance.loadUsable workspace.disk
  match scopeOf (existingCatalog? files workspace.disk) found (plan force record found times) with
  | none => return .fresh
  | some (scope, documents, start) =>
    let catalog ← Command.require (gather workspace.disk documents start) id
    regenerate files found scope catalog

end Refresh

end FeaturePress
