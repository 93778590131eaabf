import FeaturePress.Project.Build
import FeaturePress.Proofs.Disk.Listing
import FeaturePress.Proofs.Feature.Mirroring
import FeaturePress.Proofs.Project.Refresh

/-! What a build may change: the output tree, the cache of prepared files, and the documents. The files
that it builds are listed below the features directory, and what it writes for each of them lies as
many names below the output directory and below the cache directory.
-/

namespace FeaturePress

-----------------------------------------------------------------------------------------
-- The paths of a source
-----------------------------------------------------------------------------------------

/-- A path that lies some names below the features directory. -/
def Config.IsSource (config : Config) (source : Path) (names : List Text) : Prop :=
  source = config.featuresDirectory.along names ∧ ∀ name ∈ names, IsName name

section

variable {config : Config} {source : Path} {names : List Text}

theorem Preparation.relative_of_isSource {preparation : Preparation}
    (isSource : preparation.config.IsSource source names)
    : preparation.relative source = .ok (List.intercalate ['/'] names) := by
  obtain ⟨rfl, proper⟩ := isSource
  unfold relative
  rw [Path.relativeTo?_along _ proper]

/-- The output of a source lies as many names below the output directory. -/
theorem Preparation.outputPath_of_isSource {preparation : Preparation}
    (isSource : preparation.config.IsSource source names)
    : preparation.outputPath source = .ok (preparation.config.outputDirectory.below names) := by
  unfold outputPath
  rw [relative_of_isSource isSource]
  rfl

/-- The cached form of a source lies as many names below the cache directory. -/
theorem FeatureCache.cachedPath_of_isSource (isSource : config.IsSource source names)
    : cachedPath config source = config.featureCache.directory.below names := by
  obtain ⟨rfl, proper⟩ := isSource
  unfold cachedPath
  rw [Path.relativeTo?_along _ proper]
  rfl

end

namespace Build

-----------------------------------------------------------------------------------------
-- The territory
-----------------------------------------------------------------------------------------

/-- The territory of building one file: its output, its cached form and the record of the cache. -/
def fileTerritory (config : Config) (names : List Text) (workspace : Workspace) : Disk.Territory :=
  ((Disk.Territory.written workspace.disk.current (config.outputDirectory.below names)).union
    (.written workspace.disk.current (config.featureCache.directory.below names))).union
    (workspace.metadata.territory workspace.disk.current)

/-- The territory of building some files. -/
def sourcesTerritory (config : Config) (sources : List Path) (workspace : Workspace)
    : Disk.Territory :=
  .any (fun names => ∃ source ∈ sources, config.IsSource source names)
    (fileTerritory config · workspace)

/-- The territory of building files: what is prepared and what is cached. -/
def filesTerritory (config : Config) (workspace : Workspace) : Disk.Territory :=
  ((Disk.Territory.under workspace.disk.current config.outputDirectory).union
    (.under workspace.disk.current config.featureCache.directory)).union
    (workspace.metadata.territory workspace.disk.current)

/-- The territory of a build: that of the refresh, the old output tree, and that of the files. -/
def territory (config : Config) (workspace : Workspace) : Disk.Territory :=
  ((Refresh.territory config.stepGroups workspace).union
    (.tree (config.outputDirectory.place workspace.disk.current))).union
    (filesTerritory config workspace)

theorem stable_fileTerritory (config : Config) (names : List Text)
    : Command.Stable (fileTerritory config names) := by
  intro bounds before after confined
  unfold fileTerritory Store.territory
  rw [confined.frame.current, confined.metadata]

theorem stable_sourcesTerritory (config : Config) (sources : List Path)
    : Command.Stable (sourcesTerritory config sources) := by
  intro bounds before after confined
  unfold sourcesTerritory
  simp only [fun names => stable_fileTerritory config names _ _ _ confined]

theorem stable_filesTerritory (config : Config) : Command.Stable (filesTerritory config) := by
  intro bounds before after confined
  unfold filesTerritory Store.territory
  rw [confined.frame.current, confined.metadata]

theorem stable_territory (config : Config) : Command.Stable (territory config) := by
  intro bounds before after confined
  unfold territory
  rw [Refresh.stable_territory _ _ _ _ confined, stable_filesTerritory _ _ _ _ confined,
    confined.frame.current]

theorem withinOutput (config : Config) (names : List Text) (workspace : Workspace)
    : (Disk.Territory.written workspace.disk.current (config.outputDirectory.below names)).Within
        (fileTerritory config names workspace) :=
  (Disk.Territory.within_union_left _ _).trans (Disk.Territory.within_union_left _ _)

theorem withinCache (config : Config) (names : List Text) (workspace : Workspace)
    : (Disk.Territory.written workspace.disk.current
          (config.featureCache.directory.below names)).Within
        (fileTerritory config names workspace) :=
  (Disk.Territory.within_union_right _ _).trans (Disk.Territory.within_union_left _ _)

theorem fileWithinFiles {names : List Text} (proper : ∀ name ∈ names, IsName name) (config : Config)
    (workspace : Workspace)
    : (fileTerritory config names workspace).Within (filesTerritory config workspace) :=
  Disk.Territory.Within.union
    (Disk.Territory.Within.union (Disk.Territory.written_within_under proper)
      (Disk.Territory.written_within_under proper))
    ⟨fun _ => id, fun _ => id, fun _ => id⟩

-----------------------------------------------------------------------------------------
-- One file
-----------------------------------------------------------------------------------------

variable {config : Config} {preparation : Preparation} {source : Path} {names : List Text}

/-- Preparing a source writes its output or nothing. -/
theorem frame_prepare (disk : Disk) (isSource : preparation.config.IsSource source names)
    : Disk.Frame (.written disk.current (preparation.config.outputDirectory.below names)) disk
        (preparation.run disk source).2 :=
  Preparation.frame_run (Preparation.outputPath_of_isSource isSource) disk

/-- Recording a cached file saves the record. -/
theorem confined_record (workspace : Workspace) (source cached : Path)
    : Command.Confined (workspace.metadata.territory workspace.disk.current) workspace
        { workspace with
          disk := (FeatureCache.record workspace.disk workspace.metadata source cached).2.1
          metadata := (FeatureCache.record workspace.disk workspace.metadata source cached).2.2 } := by
  unfold FeatureCache.record
  refine ⟨?_, rfl, Store.file?_save ..⟩
  exact (Disk.frame_tick _ workspace.disk).trans (Store.frame_save _ workspace.disk.tick _)

/-- Caching a prepared source is nothing, writing its cached form, or writing and recording it. -/
theorem cache_cases (config : Config) (source : Path) (content : Text) (workspace : Workspace)
    : cache config source content workspace = workspace
      ∨ (config.featureCache.enabled = true ∧ Opening.startsWithFeature content = true
        ∧ ∃ outcome written, workspace.disk.write (FeatureCache.cachedPath config source)
            (.text content) = (outcome, written)
          ∧ ((∃ error, outcome = .error error
              ∧ cache config source content workspace = { workspace with disk := written })
            ∨ (outcome = .ok ()
              ∧ cache config source content workspace = { workspace with
                disk := (FeatureCache.record written workspace.metadata source
                  (FeatureCache.cachedPath config source)).2.1
                metadata := (FeatureCache.record written workspace.metadata source
                  (FeatureCache.cachedPath config source)).2.2 }))) := by
  unfold cache
  split
  · next cacheable =>
      obtain ⟨enabled, opens⟩ : config.featureCache.enabled = true
          ∧ Opening.startsWithFeature content = true := by simpa using cacheable
      right
      refine ⟨enabled, opens, ?_⟩
      rcases hwrite : workspace.disk.write (FeatureCache.cachedPath config source) (.text content)
        with ⟨outcome, written⟩
      refine ⟨outcome, written, rfl, ?_⟩
      cases outcome with
      | error error =>
          left
          refine ⟨error, rfl, ?_⟩
          simp [FeatureCache.persist, opens, hwrite]
      | ok _ =>
          right
          refine ⟨rfl, ?_⟩
          rcases hrecord : FeatureCache.record written workspace.metadata source
            (FeatureCache.cachedPath config source) with ⟨saved, disk, metadata⟩
          cases saved <;> simp [FeatureCache.persist, opens, hwrite, hrecord]
  · exact Or.inl rfl

/-- Caching a prepared source changes its cached form and the record at most. -/
theorem confined_cache (workspace : Workspace) (content : Text)
    (isSource : config.IsSource source names)
    : Command.Confined (fileTerritory config names workspace) workspace
        (cache config source content workspace) := by
  rcases cache_cases config source content workspace with
    same | ⟨-, -, outcome, written, wrote, ⟨error, -, failed⟩ | ⟨-, recorded⟩⟩
  · rw [same]
    exact Command.Confined.refl _ workspace
  all_goals
    have frame := Disk.frame_write workspace.disk (FeatureCache.cachedPath config source)
      (.text content)
    rw [wrote, FeatureCache.cachedPath_of_isSource isSource] at frame
    have first : Command.Confined (fileTerritory config names workspace) workspace
        { workspace with disk := written } :=
      (Command.Confined.ofFrame frame).mono (withinCache config names workspace)
  · rw [failed]
    exact first
  · rw [recorded]
    have second := confined_record { workspace with disk := written } source
      (FeatureCache.cachedPath config source)
    have stable := stable_fileTerritory config names _ _ _ first
    exact first.trans (stable ▸ second.mono (Disk.Territory.within_union_right _ _))

theorem confined_process (workspace : Workspace) (isSource : preparation.config.IsSource source names)
    : Command.Confined (fileTerritory preparation.config names workspace) workspace
        (process preparation source workspace).2 := by
  have first : Command.Confined (fileTerritory preparation.config names workspace) workspace
      { workspace with disk := (preparation.run workspace.disk source).2 } :=
    (Command.Confined.ofFrame (frame_prepare workspace.disk isSource)).mono (withinOutput ..)
  unfold process
  split
  · next content disk ran =>
      rw [ran] at first
      have stable := stable_fileTerritory preparation.config names _ _ _ first
      exact first.trans (stable ▸ confined_cache { workspace with disk } content isSource)
  · next ran =>
      rw [ran] at first
      exact first

/-- Restoring a source, whether it succeeds or not, changes its output at most. -/
theorem confined_restore (workspace : Workspace) (cached : Path)
    (isSource : preparation.config.IsSource source names)
    : Command.Confined (.written workspace.disk.current (preparation.config.outputDirectory.below names))
        workspace (restore preparation source cached workspace).2 := by
  unfold restore
  rw [Preparation.outputPath_of_isSource isSource]
  dsimp only
  unfold Disk.copy
  cases workspace.disk.read cached with
  | error cause => exact Command.Confined.refl _ workspace
  | ok content =>
      exact Command.Confined.ofFrame (Disk.frame_write workspace.disk _ (.text content))

theorem confined_buildFile (reuseAllowed : Bool) (workspace : Workspace)
    (isSource : preparation.config.IsSource source names)
    : Command.Confined (fileTerritory preparation.config names workspace) workspace
        (buildFile preparation reuseAllowed source workspace).2 := by
  unfold buildFile
  dsimp only
  split
  · have restored := (confined_restore workspace
      (FeatureCache.cachedPath preparation.config source) isSource).mono (withinOutput ..)
    split
    · next done => simpa [done] using restored
    · next failed =>
        rw [failed] at restored
        have stable := stable_fileTerritory preparation.config names _ _ _ restored
        exact restored.trans (stable ▸ confined_process _ isSource)
  · exact confined_process workspace isSource

/-- The outcomes of building files are those of the files in their order. -/
theorem map_fst_buildFiles (preparation : Preparation) (reuseAllowed : Bool) (sources : List Path)
    (workspace : Workspace)
    : (buildFiles preparation reuseAllowed sources workspace).1.map Prod.fst = sources := by
  induction sources generalizing workspace with
  | nil => rfl
  | cons source rest ih => exact congrArg (source :: ·) (ih _)

/-- Every file is built after some of the files and before the others, by induction on the files. -/
theorem exists_turn {reuseAllowed : Bool} {sources : List Path} {source : Path} {result : FileOutcome}
    {workspace : Workspace}
    (isBuilt : (source, result) ∈ (buildFiles preparation reuseAllowed sources workspace).1)
    : ∃ earlier later, sources = earlier ++ source :: later
        ∧ (buildFile preparation reuseAllowed source
          (buildFiles preparation reuseAllowed earlier workspace).2).1 = result
        ∧ (buildFiles preparation reuseAllowed sources workspace).2
          = (buildFiles preparation reuseAllowed later (buildFile preparation reuseAllowed source
              (buildFiles preparation reuseAllowed earlier workspace).2).2).2 := by
  induction sources generalizing workspace with
  | nil => simp [buildFiles] at isBuilt
  | cons other rest ih =>
      change (source, result) ∈ (other, (buildFile preparation reuseAllowed other workspace).1)
        :: (buildFiles preparation reuseAllowed rest
            (buildFile preparation reuseAllowed other workspace).2).1 at isBuilt
      rcases List.mem_cons.mp isBuilt with here | isLater
      · obtain ⟨rfl, rfl⟩ := Prod.mk.inj here
        exact ⟨[], rest, rfl, rfl, rfl⟩
      · obtain ⟨earlier, later, rfl, same, last⟩ := ih isLater
        exact ⟨other :: earlier, later, rfl, same, last⟩

theorem sourcesWithinSources {sources more : List Path} (subset : sources ⊆ more) (config : Config)
    (workspace : Workspace)
    : (sourcesTerritory config sources workspace).Within
        (sourcesTerritory config more workspace) :=
  Disk.Territory.any_within fun _ ⟨source, member, isSource⟩ =>
    Disk.Territory.within_any (fileTerritory config · workspace) ⟨source, subset member, isSource⟩

theorem sourcesWithinFiles (config : Config) (sources : List Path) (workspace : Workspace)
    : (sourcesTerritory config sources workspace).Within (filesTerritory config workspace) :=
  Disk.Territory.any_within fun _ ⟨_, _, isSource⟩ => fileWithinFiles isSource.2 config workspace

/-- Building files one after the other, by induction on the files. -/
theorem confined_buildFiles (reuseAllowed : Bool) {sources : List Path} (workspace : Workspace)
    (areSources : ∀ source ∈ sources, ∃ names, preparation.config.IsSource source names)
    : Command.Confined (sourcesTerritory preparation.config sources workspace) workspace
        (buildFiles preparation reuseAllowed sources workspace).2 := by
  induction sources generalizing workspace with
  | nil => exact Command.Confined.refl _ workspace
  | cons source rest ih =>
      obtain ⟨names, isSource⟩ := areSources source (List.mem_cons_self ..)
      have within : (fileTerritory preparation.config names workspace).Within
          (sourcesTerritory preparation.config (source :: rest) workspace) :=
        Disk.Territory.within_any (fileTerritory preparation.config · workspace)
          ⟨source, List.mem_cons_self .., isSource⟩
      have first := (confined_buildFile reuseAllowed workspace isSource).mono within
      have stable := stable_sourcesTerritory preparation.config (source :: rest) _ _ _ first
      have others := (ih (buildFile preparation reuseAllowed source workspace).2
        fun other member => areSources other (List.mem_cons_of_mem _ member)).mono
          (sourcesWithinSources (List.subset_cons_self source rest) preparation.config _)
      exact first.trans (stable ▸ others)

-----------------------------------------------------------------------------------------
-- Whole builds
-----------------------------------------------------------------------------------------

variable {value : Text → Text} {force : Bool} {before after : Workspace} {outcome : BuildOutcome}

/-- The part of a build before the files: what became of the step groups, and the files to build. -/
def ready (config : Config) (force : Bool) : Command (Refresh × List Path) := do
  Command.require config.validate .config
  let refresh ← Refresh.run config.stepGroups force
  let found ← Command.look
    (·.featureFiles config.featuresDirectory [config.stepGroups.sourceDirectory])
  resetOutput config
  return (refresh, found)

/-- The preparation of a build whose output tree was just emptied. -/
def preparationOn (disk : Disk) (config : Config) (value : Text → Text) : Preparation :=
  ⟨config, Catalog.loadOrEmpty disk config.stepGroups.catalog, value⟩

/-- A build gets ready and then builds the files, which never fails as a whole. -/
theorem run_eq (config : Config) (value : Text → Text) (force : Bool) (before : Workspace)
    : run config value force before
      = match ready config force before with
        | .error error workspace => .error error workspace
        | .ok (refresh, found) workspace =>
          let built := buildFiles (preparationOn workspace.disk config value)
            (allowsReuse config force refresh) found workspace
          .ok ⟨refresh, built.1⟩ built.2 := by
  simp only [run, ready, bind, EStateM.bind]
  cases Command.require config.validate CommandError.config before with
  | error error workspace => rfl
  | ok _ checked =>
      dsimp only
      cases Refresh.run config.stepGroups force checked with
      | error error workspace => rfl
      | ok refresh refreshed =>
          dsimp only
          cases Command.look (·.featureFiles config.featuresDirectory
            [config.stepGroups.sourceDirectory]) refreshed with
          | error error workspace => rfl
          | ok found listed =>
              dsimp only
              cases resetOutput config listed <;> rfl

/-- A build that succeeds got ready, and its outcome is that of the files. -/
theorem run_eq_ok (ok : run config value force before = .ok outcome after)
    : ∃ found created, ready config force before = .ok (outcome.refresh, found) created
        ∧ buildFiles (preparationOn created.disk config value)
            (allowsReuse config force outcome.refresh) found created = (outcome.files, after) := by
  rw [run_eq] at ok
  split at ok
  · simp at ok
  · next refresh found created isReady =>
      simp only [EStateM.Result.ok.injEq] at ok
      obtain ⟨rfl, rfl⟩ := ok
      exact ⟨found, created, isReady, rfl⟩

/-- Getting ready with success has refreshed the step groups, listed the files and emptied the output
tree.
-/
theorem ready_eq_ok {refresh : Refresh} {found : List Path} {created : Workspace}
    (ok : ready config force before = .ok (refresh, found) created)
    : ∃ refreshed emptied, config.validate = .ok ()
        ∧ Refresh.run config.stepGroups force before = .ok refresh refreshed
        ∧ refreshed.disk.featureFiles config.featuresDirectory [config.stepGroups.sourceDirectory]
          = .ok found
        ∧ refreshed.disk.removeTree config.outputDirectory = (.ok (), emptied)
        ∧ emptied.createDirectories config.outputDirectory = (.ok (), created.disk)
        ∧ created = { refreshed with disk := created.disk } := by
  unfold ready at ok
  obtain ⟨_, start, valid, afterCheck⟩ := Command.bind_eq_ok ok
  obtain ⟨isValid, rfl⟩ := Command.require_eq_ok valid
  obtain ⟨_, refreshed, refreshOk, afterRefresh⟩ := Command.bind_eq_ok afterCheck
  obtain ⟨_, listed, lookOk, afterLook⟩ := Command.bind_eq_ok afterRefresh
  obtain ⟨listing, rfl⟩ := Command.look_eq_ok lookOk
  obtain ⟨_, reset, resetOk, result⟩ := Command.bind_eq_ok afterLook
  obtain ⟨same, rfl⟩ := Command.pure_eq_ok result
  obtain ⟨rfl, rfl⟩ := Prod.mk.inj same
  obtain ⟨_, emptied, removeOk, createOk⟩ := Command.bind_eq_ok resetOk
  obtain ⟨removed, sameRemoved⟩ := Command.change_eq_ok removeOk
  obtain ⟨created, sameCreated⟩ := Command.change_eq_ok createOk
  refine ⟨listed, emptied.disk, isValid, refreshOk, listing, removed, created, ?_⟩
  rw [sameCreated, sameRemoved]

/-- The territory of getting ready: that of the refresh, the old output tree and the way to it. -/
def readyTerritory (config : Config) (workspace : Workspace) : Disk.Territory :=
  ((Refresh.territory config.stepGroups workspace).union
    (.tree (config.outputDirectory.place workspace.disk.current))).union
    (.way workspace.disk.current config.outputDirectory)

theorem stable_readyTerritory (config : Config) : Command.Stable (readyTerritory config) := by
  intro bounds before after confined
  unfold readyTerritory
  rw [Refresh.stable_territory _ _ _ _ confined, confined.frame.current]

theorem refreshWithinReady (config : Config) (workspace : Workspace)
    : (Refresh.territory config.stepGroups workspace).Within (readyTerritory config workspace) :=
  (Disk.Territory.within_union_left _ _).trans (Disk.Territory.within_union_left _ _)

theorem oldOutputWithinReady (config : Config) (workspace : Workspace)
    : (Disk.Territory.tree (config.outputDirectory.place workspace.disk.current)).Within
        (readyTerritory config workspace) :=
  (Disk.Territory.within_union_right _ _).trans (Disk.Territory.within_union_left _ _)

/-- Getting ready, whether it succeeds or not, stays within its territory. -/
theorem confined_ready (config : Config) (force : Bool) (before : Workspace)
    : Command.Confined (readyTerritory config before) before
        (Command.left (ready config force before)) := by
  have stable := stable_readyTerritory config
  unfold ready
  refine .bind stable ?_ fun _ w₁ _ => .bind stable ?_ fun refresh w₂ _ =>
    .bind stable ?_ fun found w₃ _ => .bind stable ?_ fun _ w₄ _ => ?_
  · rw [Command.left_require]
    exact Command.Confined.refl _ before
  · exact (Refresh.confined_run config.stepGroups force w₁).mono (refreshWithinReady ..)
  · rw [Command.left_look]
    exact Command.Confined.refl _ w₂
  · unfold resetOutput
    refine .bind stable ?_ fun _ between _ => ?_
    · rw [Command.left_change]
      exact (Command.Confined.ofFrame (Disk.frame_removeTree ..)).mono (oldOutputWithinReady ..)
    · rw [Command.left_change]
      exact (Command.Confined.ofFrame (Disk.frame_createDirectories ..)).mono
        (Disk.Territory.within_union_right ..)
  · exact Command.Confined.refl _ w₄

/-- A build that fails has changed nothing outside the territory of getting ready. -/
theorem confined_run_of_error {error : CommandError}
    (failed : run config value force before = .error error after)
    : Command.Confined (readyTerritory config before) before after := by
  have confined := confined_ready config force before
  rw [run_eq] at failed
  split at failed
  · next isFailed =>
      simp only [EStateM.Result.error.injEq] at failed
      rw [isFailed, Command.left_error, failed.2] at confined
      exact confined
  · simp at failed

theorem isProper_readyTerritory {workspace : Workspace} (proper : workspace.disk.Proper)
    (config : Config)
    : (readyTerritory config workspace).IsProper :=
  .union (.union (Refresh.isProper_territory proper config.stepGroups) (.tree _))
    (.way proper.current _)

theorem isProper_fileTerritory {workspace : Workspace} (proper : workspace.disk.Proper)
    (config : Config) (names : List Text)
    : (fileTerritory config names workspace).IsProper :=
  .union (.union (.written proper.current _) (.written proper.current _))
    (Store.isProper_territory proper.current workspace.metadata)

theorem isProper_sourcesTerritory {workspace : Workspace} (proper : workspace.disk.Proper)
    (config : Config) (sources : List Path)
    : (sourcesTerritory config sources workspace).IsProper :=
  .any fun names _ => isProper_fileTerritory proper config names

theorem readyWithinBuild (config : Config) (workspace : Workspace)
    : (readyTerritory config workspace).Within (territory config workspace) :=
  ⟨fun _ => Or.imp_right False.elim, fun _ inside => inside.elim Or.inl False.elim,
    fun _ => Or.imp_right fun way => Or.inl (Or.inl (Or.inl way))⟩

theorem filesWithinBuild (config : Config) (workspace : Workspace)
    : (filesTerritory config workspace).Within (territory config workspace) :=
  Disk.Territory.within_union_right _ _

/-- Files that were listed are sources. -/
theorem isSource_of_ready {refresh : Refresh} {found : List Path} {created : Workspace}
    (proper : before.disk.Proper) (ok : ready config force before = .ok (refresh, found) created)
    : found.Nodup ∧ ∀ source ∈ found, ∃ names, config.IsSource source names := by
  obtain ⟨refreshed, -, -, refreshOk, listed, -⟩ := ready_eq_ok ok
  have confined := (Refresh.confined_run config.stepGroups force before).ofOk refreshOk
  have proper₂ := confined.frame.proper proper (Refresh.isProper_territory proper _)
  exact ⟨Disk.nodup_featureFiles proper₂ listed,
    fun source member => Disk.isName_of_mem_featureFiles proper₂ listed member⟩

/-- A build, whether it succeeds or not, changes nothing outside its territory. -/
theorem confined_run (config : Config) (value : Text → Text) (force : Bool) (before : Workspace)
    (proper : before.disk.Proper)
    : Command.Confined (territory config before) before
        (Command.left (run config value force before)) := by
  have first := (confined_ready config force before).mono (readyWithinBuild config before)
  rw [run_eq]
  split
  · next isFailed =>
      rw [isFailed] at first
      exact first
  · next refresh found created isReady =>
      rw [isReady] at first
      have areSources : ∀ source ∈ found,
          ∃ names, (preparationOn created.disk config value).config.IsSource source names :=
        (isSource_of_ready proper isReady).2
      have second := (confined_buildFiles (allowsReuse config force refresh) created areSources).mono
        ((sourcesWithinFiles ..).trans (filesWithinBuild ..))
      exact first.trans (stable_territory config _ _ _ first ▸ second)

theorem proper_of_ready {refresh : Refresh} {found : List Path} {created : Workspace}
    (proper : before.disk.Proper) (ok : ready config force before = .ok (refresh, found) created)
    : created.disk.Proper :=
  ((confined_ready config force before).ofOk ok).frame.proper proper
    (isProper_readyTerritory proper config)

/-- A disk stays proper over a build. -/
theorem proper_of_run (proper : before.disk.Proper)
    (ok : run config value force before = .ok outcome after)
    : after.disk.Proper := by
  obtain ⟨found, created, isReady, built⟩ := run_eq_ok ok
  have areSources : ∀ source ∈ found,
      ∃ names, (preparationOn created.disk config value).config.IsSource source names :=
    (isSource_of_ready proper isReady).2
  have confined := confined_buildFiles (allowsReuse config force outcome.refresh) created areSources
  rw [built] at confined
  have properCreated := proper_of_ready proper isReady
  exact confined.frame.proper properCreated (isProper_sourcesTerritory properCreated _ _)

end Build

end FeaturePress
