import FeaturePress.Proofs.Project.Build
import FeaturePress.Proofs.Project.Clean

/-! Which files builds and cleaning leave as they are. A build removes the tree at the place of the
output directory, wherever the spelling of its path leads to, and cleaning removes two trees and
three documents that are given by their paths alone.
-/

namespace FeaturePress

namespace Build

variable {config : Config} {value : Text → Text} {force : Bool} {before after refreshed : Workspace}
  {outcome : BuildOutcome} {refresh : Refresh} {place : Location} {entry : Entry}

/-- A build whose output directory is found leaves no file below it as it was: what stands there
afterwards is newer than the build.
-/
theorem modified_of_below_output (ok : run config value force before = .ok outcome after)
    (proper : before.disk.Proper)
    (refreshedTo : Refresh.run config.stepGroups force before = .ok refresh refreshed)
    (found : refreshed.disk.holds config.outputDirectory = true)
    (inside : config.outputDirectory.place before.disk.current <+: place)
    (stands : after.disk.entry? place = some entry)
    : before.disk.clock < entry.modified := by
  obtain ⟨sources, created, isReady, built⟩ := run_eq_ok ok
  have areSources : ∀ source ∈ sources,
      ∃ names, (preparationOn created.disk config value).config.IsSource source names :=
    (isSource_of_ready proper isReady).2
  obtain ⟨between, emptied, -, refreshOk, -, removed, made, -⟩ := ready_eq_ok isReady
  obtain ⟨-, rfl⟩ : _ ∧ refreshed = between := by simpa [refreshedTo] using refreshOk
  have refreshing := (Refresh.confined_run config.stepGroups force before).ofOk refreshedTo
  have emptying := Disk.frame_removeTree refreshed.disk config.outputDirectory
  have making := Disk.frame_createDirectories emptied config.outputDirectory
  have building := confined_buildFiles (allowsReuse config force outcome.refresh) created areSources
  rw [removed] at emptying
  rw [made] at making
  rw [built] at building
  have vacant : emptied.entry? place = none :=
    Disk.entry?_removeTree_of_holds found removed (refreshing.frame.current ▸ inside)
  have earlier := refreshing.frame.clock
  have later := emptying.clock
  have latest := making.clock
  dsimp only at later latest
  rcases building.frame.recent place entry stands with old | ⟨new, -⟩
  · rcases making.recent place entry old with older | ⟨new, -⟩
    · simp [vacant] at older
    · omega
  · omega

end Build

/-- Builds and cleaning leave a file as it is outside their territories, whether they succeed or
fail. Within them it is lost: a build that finds its output directory keeps a file exactly when the
file does not stand below the place of that directory, and cleaning keeps a file exactly when it
stands below none of the removed trees and is none of the removed documents.
-/
theorem kept_iff_outside (config : Config) (value : Text → Text) (force : Bool) (before : Workspace)
    (proper : before.disk.Proper) {place : Location} {entry : Entry}
    (stands : before.disk.entry? place = some entry) (isFile : entry.isDirectory = false)
    (past : entry.modified ≤ before.disk.clock)
    : (¬ (Build.territory config before).Changes place →
        Disk.entry? (Command.left (Build.run config value force before)).disk place = some entry)
      ∧ (¬ (Clean.territory config before).Changes place →
        Disk.entry? (Command.left (Clean.run config before)).disk place = some entry)
      ∧ (∀ refresh refreshed outcome after,
        Refresh.run config.stepGroups force before = .ok refresh refreshed →
        refreshed.disk.holds config.outputDirectory = true →
        Build.run config value force before = .ok outcome after →
        ((Build.territory config before).Changes place →
          config.outputDirectory.place before.disk.current <+: place) →
        (after.disk.entry? place = some entry
          ↔ ¬ config.outputDirectory.place before.disk.current <+: place))
      ∧ ∀ removed after, Clean.run config before = .ok removed after →
        ∃ directories documents, removed = directories ++ documents
          ∧ (after.disk.entry? place = some entry
            ↔ (∀ path ∈ directories, ¬ path.place before.disk.current <+: place)
              ∧ ∀ path ∈ documents, place ≠ path.place before.disk.current) := by
  have building := Build.confined_run config value force before proper
  have cleaning := Clean.confined_run config before
  refine ⟨fun outside => building.frame.file_kept outside stands isFile,
    fun outside => cleaning.frame.file_kept outside stands isFile, ?_,
    fun removed after ok => Clean.entry?_run ok stands isFile⟩
  intro refresh refreshed outcome after refreshedTo found ok onlyOutput
  constructor
  · intro kept inside
    have new := Build.modified_of_below_output ok proper refreshedTo found inside kept
    omega
  · intro outside
    exact (building.ofOk ok).frame.file_kept (fun changes => outside (onlyOutput changes)) stands isFile

-----------------------------------------------------------------------------------------
-- An output directory that goes up
-----------------------------------------------------------------------------------------

namespace Protection

/-- A configuration whose output directory leads back to the features. -/
def config : Config where
  featuresDirectory := .of "f"
  outputDirectory := .of "f/../f"
  dataDirectory := .of "d"
  stepGroups := ⟨.of "g", .of "c", .of "p", .of "b"⟩
  featureCache := ⟨true, .of "k", .of "m"⟩

/-- A directory of the example. -/
def directory : Entry := ⟨.directory, 0, ⟨true, true, true⟩⟩

/-- The only feature of the example. -/
def feature : Entry := ⟨.file (.text "Feature:C".toList), 5, ⟨true, true, false⟩⟩

/-- Where the feature stands. -/
def place : Location := [['f'], "c.feature".toList]

/-- One feature, and nothing generated yet. -/
def workspace : Workspace where
  disk := {
    entries := ⟨[([], directory), ([['f']], directory), (place, feature), ([['g']], directory)],
      by decide⟩
    current := []
    clock := 100
    canOpen := true }
  provenance := .file config.stepGroups.provenance
  metadata := .file config.featureCache.metadata

end Protection

set_option maxRecDepth 100000 in
/-- Witness: the feature stands below the place of the output directory, and a build loses it. -/
theorem kept_iff_outside_features_as_output
    : ∃ outcome after,
        Build.run Protection.config id false Protection.workspace = .ok outcome after
        ∧ (after.disk.entry? Protection.place = some Protection.feature
          ↔ ¬ Protection.config.outputDirectory.place [] <+: Protection.place)
        ∧ after.disk.entry? Protection.place ≠ some Protection.feature := by
  obtain ⟨-, -, builds, -⟩ := kept_iff_outside Protection.config id false Protection.workspace
    (by decide +kernel) (show Protection.workspace.disk.entry? Protection.place
      = some Protection.feature by decide +kernel) rfl (by decide)
  have refreshes : Command.succeeds
      (Refresh.run Protection.config.stepGroups false Protection.workspace) = true := by
    decide +kernel
  have succeeds : Command.succeeds
      (Build.run Protection.config id false Protection.workspace) = true := by
    decide +kernel
  have inside : Protection.config.outputDirectory.place [] <+: Protection.place := by
    decide +kernel
  obtain ⟨refresh, refreshed⟩ := Command.eq_ok_of_succeeds refreshes
  obtain ⟨outcome, built⟩ := Command.eq_ok_of_succeeds succeeds
  have keptIff := builds _ _ _ _ refreshed (by decide +kernel) built fun _ => inside
  exact ⟨outcome, _, built, keptIff, fun kept => keptIff.mp kept inside⟩

set_option maxRecDepth 100000 in
/-- Counterexample: the configuration is accepted, and a build that succeeds removes the feature. -/
theorem feature_lost_though_valid
    : Protection.config.validate = .ok ()
      ∧ Command.succeeds (Build.run Protection.config id false Protection.workspace) = true
      ∧ Disk.entry? (Command.left (Build.run Protection.config id false Protection.workspace)).disk
          Protection.place = none := by
  decide +kernel

end FeaturePress
