import FeaturePress.Config.Basic
import FeaturePress.State.Store
import FeaturePress.StepGroup.Document

/-! Commands on a project: what they work on, how they fail, and their steps. A command that fails
keeps the changes that its steps have made.
-/

namespace FeaturePress

/-- Why a command fails. -/
inductive CommandError where
  | config (cause : ConfigError)
  | stepGroup (cause : StepGroupError)
  | file (cause : FileError)
  | document (cause : DocumentError)
deriving DecidableEq

/-- The text of a command error. -/
def CommandError.message : CommandError → Text
  | .config cause => cause.message
  | .stepGroup cause => cause.message
  | .file cause => cause.message
  | .document cause => cause.message

/-- What commands work on: a disk and the stores of the two records. -/
structure Workspace where
  disk : Disk
  provenance : Store Provenance
  metadata : Store Metadata

/-- A command: it changes a workspace, and gives a value or fails. -/
abbrev Command := EStateM CommandError Workspace

namespace Command

/-- Refuses when a check fails. -/
def require (outcome : Except ε α) (fail : ε → CommandError) : Command α := fun workspace =>
  match outcome with
  | .ok value => .ok value workspace
  | .error error => .error (fail error) workspace

/-- Looks at the disk. -/
def look (question : Disk → Except FileError α) : Command α := fun workspace =>
  require (question workspace.disk) .file workspace

/-- Changes the disk. -/
def change (edit : Disk → Except FileError α × Disk) : Command α := fun workspace =>
  match edit workspace.disk with
  | (.ok value, disk) => .ok value { workspace with disk }
  | (.error cause, disk) => .error (.file cause) { workspace with disk }

/-- Replaces the record of modification times. -/
def saveProvenance (record : Provenance) : Command Unit := fun workspace =>
  match workspace.provenance.save workspace.disk record with
  | (.ok (), disk, provenance) => .ok () { workspace with disk, provenance }
  | (.error cause, disk, provenance) => .error (.document cause) { workspace with disk, provenance }

end Command

end FeaturePress
