import FeaturePress.Project.Run
import FeaturePress.Proofs.Project.Clean
import FeaturePress.Proofs.Project.ReuseHistory

/-! What a command may touch, said by the paths of the configuration alone: each command has its
artifacts, and files that are none of them are after a call what they were before it, however the call
ends and however the configured paths lie to each other.
-/

namespace FeaturePress

/-- The artifacts of a command: directories with all that lies below them, and documents. -/
structure Artifacts where
  directories : List Path
  documents : List Path

namespace Artifacts

variable {artifacts : Artifacts} {territory : Disk.Territory} {before after : Disk}

/-- Whether what stands at a place belongs to some artifacts. -/
def Cover (artifacts : Artifacts) (start place : Location) : Prop :=
  (∃ path ∈ artifacts.directories, path.place start <+: place)
    ∨ ∃ path ∈ artifacts.documents, place = path.place start

instance (artifacts : Artifacts) (start place : Location) : Decidable (artifacts.Cover start place) :=
  inferInstanceAs (Decidable (_ ∨ _))

/-- A change that concerns no file but the artifacts: the same other files stand before and after it,
with their contents and times.
-/
def Bound (artifacts : Artifacts) (before after : Disk) : Prop :=
  ∀ place entry, ¬ artifacts.Cover before.current place → entry.isDirectory = false →
    (after.entry? place = some entry ↔ before.entry? place = some entry)

/-- A change within a territory concerns no file but artifacts that cover the territory. -/
theorem bound_of_frame (frame : Disk.Frame territory before after)
    (covered : ∀ place, territory.Changes place → artifacts.Cover before.current place)
    : artifacts.Bound before after := by
  intro place entry uncovered isFile
  have outside : ¬ territory.Changes place := mt (covered place) uncovered
  exact ⟨fun stands => frame.file_stood outside stands isFile,
    fun stands => frame.file_kept outside stands isFile⟩

end Artifacts

/-- The artifacts of a refresh. -/
def Refresh.artifacts (files : StepGroupFiles) : Artifacts where
  directories := []
  documents := [files.catalog, files.bindings, files.provenance]

/-- The artifacts of a build: those of its refresh, the output tree, and the feature cache with its
record.
-/
def Build.artifacts (config : Config) : Artifacts where
  directories := [config.outputDirectory, config.featureCache.directory]
  documents := (Refresh.artifacts config.stepGroups).documents ++ [config.featureCache.metadata]

/-- The artifacts of cleaning. The bindings are none of them. -/
def Clean.artifacts (config : Config) : Artifacts where
  directories := Clean.directories config
  documents := Clean.documents config

variable (config : Config) (disk : Disk)

theorem Refresh.bound_run (force : Bool)
    : (artifacts config.stepGroups).Bound disk
        (Command.left (run config.stepGroups force (.ofConfig config disk))).disk := by
  have confined := confined_run config.stepGroups force (.ofConfig config disk)
  refine Artifacts.bound_of_frame confined.frame fun place changes => ?_
  simp only [territory, Disk.Territory.changes_union_iff, Disk.Territory.changes_written_iff,
    Store.changes_territory_iff] at changes
  rcases changes with (catalog | bindings) | ⟨path, isRecord, record⟩
  · exact Or.inr ⟨_, by simp [artifacts], catalog⟩
  · exact Or.inr ⟨_, by simp [artifacts], bindings⟩
  · obtain rfl := Option.some.inj isRecord
    exact Or.inr ⟨_, by simp [artifacts], record⟩

theorem Build.bound_run (value : Text → Text) (force : Bool) (proper : disk.Proper)
    : (artifacts config).Bound disk
        (Command.left (run config value force (.ofConfig config disk))).disk := by
  have confined := confined_run config value force (.ofConfig config disk) proper
  refine Artifacts.bound_of_frame confined.frame fun place changes => ?_
  rcases changes_territory_iff.mp changes with output | cache | ⟨path, isDocument, same⟩
  · exact Or.inl ⟨_, by simp [artifacts], output⟩
  · exact Or.inl ⟨_, by simp [artifacts], cache⟩
  · have listed : path ∈ (artifacts config).documents := by
      simpa [documentPaths, Workspace.ofConfig, Store.file?, artifacts, Refresh.artifacts]
        using isDocument
    exact Or.inr ⟨path, listed, same⟩

theorem Clean.bound_run
    : (artifacts config).Bound disk (Command.left (run config (.ofConfig config disk))).disk :=
  Artifacts.bound_of_frame (confined_run config (.ofConfig config disk)).frame fun _ changes =>
    changes_territory_iff.mp changes

/-- Commands touch no file but their own artifacts, whether they succeed or fail. Cleaning touches the
bindings only where they lie in one of its directories or are another of its documents.
-/
theorem commands_touch_artifacts_only (value : Text → Text) (force : Bool) (proper : disk.Proper)
    : (Build.artifacts config).Bound disk
        (Command.left (Build.run config value force (.ofConfig config disk))).disk
      ∧ (Refresh.artifacts config.stepGroups).Bound disk
        (Command.left (Refresh.run config.stepGroups force (.ofConfig config disk))).disk
      ∧ (Clean.artifacts config).Bound disk (Command.left (Clean.run config (.ofConfig config disk))).disk
      ∧ ∀ entry, entry.isDirectory = false →
          (∀ path ∈ Clean.directories config,
            ¬ path.place disk.current <+: config.stepGroups.bindings.place disk.current) →
          (∀ path ∈ Clean.documents config,
            config.stepGroups.bindings.place disk.current ≠ path.place disk.current) →
          (Disk.entry? (Command.left (Clean.run config (.ofConfig config disk))).disk
              (config.stepGroups.bindings.place disk.current) = some entry
            ↔ disk.entry? (config.stepGroups.bindings.place disk.current) = some entry) := by
  have cleaned := Clean.bound_run config disk
  refine ⟨Build.bound_run config disk value force proper, Refresh.bound_run config disk force, cleaned,
    fun entry isFile outside other => cleaned _ entry ?_ isFile⟩
  rintro (⟨path, isDirectory, below⟩ | ⟨path, isDocument, same⟩)
  · exact outside path isDirectory below
  · exact other path isDocument same

set_option maxRecDepth 100000 in
/-- Witness: a first build writes the output of the feature, and the feature stays as it was. -/
theorem commands_touch_artifacts_only_first_build
    : Disk.content? (Command.left
          (Build.run Build.Example.config id false
            (.ofConfig Build.Example.config Build.Example.unbuilt.disk))).disk
          [['o'], "c.feature".toList]
        = some (.text "Feature:\n# [START] Step Group: a - x\n# [END] Step Group: a".toList)
      ∧ Disk.entry? (Command.left
          (Build.run Build.Example.config id false
            (.ofConfig Build.Example.config Build.Example.unbuilt.disk))).disk
          [['f'], "c.feature".toList]
        = some (Build.Example.file "Feature:\n* Step Group: -a- -x-" 5) := by
  obtain ⟨built, -⟩ := commands_touch_artifacts_only Build.Example.config Build.Example.unbuilt.disk id
    false (by decide +kernel)
  refine ⟨by decide +kernel, (built _ _ (by decide +kernel) (by decide +kernel)).mpr ?_⟩
  decide +kernel

end FeaturePress
