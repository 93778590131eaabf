import FeaturePress.Proofs.Project.Disjoint

/-! Building files only adds: their outputs, their cached forms and the record of these are written at
most.
-/

namespace FeaturePress

namespace Build

variable {config : Config} {preparation : Preparation} {reuseAllowed : Bool} {source : Path}
  {names : List Text} {workspace created : Workspace}

theorem writes_output (config : Config) (workspace : Workspace) (proper : ∀ name ∈ names, IsName name)
    : (fileTerritory config names workspace).Changes
        ((config.outputDirectory.below names).place workspace.disk.current) :=
  (changes_fileTerritory_iff proper).mpr (Or.inl (Path.place_below _ proper _))

theorem writes_cached (config : Config) (workspace : Workspace) (proper : ∀ name ∈ names, IsName name)
    : (fileTerritory config names workspace).Changes
        ((config.featureCache.directory.below names).place workspace.disk.current) :=
  (changes_fileTerritory_iff proper).mpr (Or.inr (Or.inl (Path.place_below _ proper _)))

/-- Recording a cached file writes the record at most. -/
theorem grows_record {writes : Location → Prop} (workspace : Workspace) (source cached : Path)
    (inside : ∀ path, workspace.metadata.file? = some path → writes (path.place workspace.disk.current))
    : Disk.Grows writes workspace.disk
        (FeatureCache.record workspace.disk workspace.metadata source cached).2.1 := by
  unfold FeatureCache.record
  dsimp only
  refine (Disk.grows_tick writes workspace.disk).trans ?_
  rcases saved : workspace.metadata.save workspace.disk.tick _ with ⟨outcome, written, last⟩
  cases outcome with
  | ok _ => exact Store.grows_save inside saved
  | error cause => exact (Store.grows_save_of_error saved).2

/-- Caching a prepared source writes its cached form and the record at most. -/
theorem grows_cache (workspace : Workspace) (content : Text) (isSource : config.IsSource source names)
    : Disk.Grows (fileTerritory config names workspace).Changes workspace.disk
        (cache config source content workspace).disk := by
  rcases cache_cases config source content workspace with
    same | ⟨-, -, outcome, written, wrote, ⟨error, -, failed⟩ | ⟨-, recorded⟩⟩
  · rw [same]
    exact .refl _ _
  all_goals
    rw [FeatureCache.cachedPath_of_isSource isSource] at wrote
    have first := Disk.grows_write (writes_cached config workspace isSource.2) (.text content)
    rw [wrote] at first
  · rw [failed]
    exact first
  · rw [recorded]
    refine first.trans (grows_record { workspace with disk := written } source _ ?_)
    intro path isRecord
    refine (changes_fileTerritory_iff isSource.2).mpr (Or.inr (Or.inr ⟨path, isRecord, ?_⟩))
    exact congrArg path.place first.current

/-- Preparing a source writes its output at most. -/
theorem grows_prepare (disk : Disk) (isSource : preparation.config.IsSource source names)
    : Disk.Grows (· = (preparation.config.outputDirectory.below names).place disk.current) disk
        (preparation.run disk source).2 := by
  unfold Preparation.run
  rw [Preparation.outputPath_of_isSource isSource]
  dsimp only
  split
  · exact .refl _ _
  · next content _ =>
      split
      · next wrote => exact Disk.grows_of_write wrote
      · next wrote => exact Disk.grows_of_write wrote

theorem grows_process (workspace : Workspace) (isSource : preparation.config.IsSource source names)
    : Disk.Grows (fileTerritory preparation.config names workspace).Changes workspace.disk
        (process preparation source workspace).2.disk := by
  have first := (grows_prepare workspace.disk isSource).mono fun place same =>
    same ▸ writes_output preparation.config workspace isSource.2
  have confined := frame_prepare workspace.disk isSource
  unfold process
  split
  · next target content disk ran =>
      rw [ran] at first confined
      have stable := stable_fileTerritory preparation.config names _ _ _
        (Command.Confined.ofFrame confined : Command.Confined _ workspace { workspace with disk })
      exact first.trans (stable ▸ grows_cache { workspace with disk } content isSource)
  · next ran =>
      rw [ran] at first
      exact first

/-- Restoring a source writes its output at most. -/
theorem grows_restore (workspace : Workspace) (cached : Path)
    (isSource : preparation.config.IsSource source names)
    : Disk.Grows (· = (preparation.config.outputDirectory.below names).place workspace.disk.current)
        workspace.disk (restore preparation source cached workspace).2.disk := by
  unfold restore
  rw [Preparation.outputPath_of_isSource isSource]
  dsimp only
  unfold Disk.copy
  cases workspace.disk.read cached with
  | error cause => exact .refl _ _
  | ok content => exact Disk.grows_of_write rfl

theorem grows_buildFile (reuseAllowed : Bool) (workspace : Workspace)
    (isSource : preparation.config.IsSource source names)
    : Disk.Grows (fileTerritory preparation.config names workspace).Changes workspace.disk
        (buildFile preparation reuseAllowed source workspace).2.disk := by
  have first := (grows_restore workspace (FeatureCache.cachedPath preparation.config source)
    isSource).mono fun place same => same ▸ writes_output preparation.config workspace isSource.2
  have confined := confined_restore workspace
    (FeatureCache.cachedPath preparation.config source) isSource
  rcases buildFile_cases preparation reuseAllowed source workspace with
    ⟨restored, -, -, done, built⟩ | ⟨restored, failed, built⟩ | built
  · rw [done] at first
    rw [built]
    exact first
  · rw [failed] at first confined
    rw [built]
    have stable := stable_fileTerritory preparation.config names _ _ _ confined
    exact first.trans (stable ▸ grows_process restored isSource)
  · rw [built]
    exact grows_process workspace isSource

/-- Building files one after the other only adds, by induction on the files. -/
theorem grows_buildFiles (reuseAllowed : Bool) {sources : List Path} (workspace : Workspace)
    (areSources : ∀ source ∈ sources, ∃ names, preparation.config.IsSource source names)
    : Disk.Grows (sourcesTerritory preparation.config sources workspace).Changes workspace.disk
        (buildFiles preparation reuseAllowed sources workspace).2.disk := by
  induction sources generalizing workspace with
  | nil => exact .refl _ _
  | cons source rest ih =>
      obtain ⟨names, isSource⟩ := areSources source (List.mem_cons_self ..)
      have first := grows_buildFile reuseAllowed workspace isSource
      have stable := stable_sourcesTerritory preparation.config rest _ _ _
        (confined_buildFile reuseAllowed workspace isSource)
      have others := ih (buildFile preparation reuseAllowed source workspace).2
        fun other member => areSources other (List.mem_cons_of_mem _ member)
      rw [stable] at others
      refine (first.mono fun place changes => ?_).trans (others.mono fun place changes => ?_)
      · exact Disk.Territory.changes_any_iff.mpr
          ⟨names, ⟨source, List.mem_cons_self .., isSource⟩, changes⟩
      · obtain ⟨index, ⟨other, member, isOther⟩, changes⟩ := Disk.Territory.changes_any_iff.mp changes
        exact Disk.Territory.changes_any_iff.mpr
          ⟨index, ⟨other, List.mem_cons_of_mem _ member, isOther⟩, changes⟩

end Build

end FeaturePress
