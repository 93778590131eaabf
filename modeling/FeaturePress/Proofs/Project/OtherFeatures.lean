import FeaturePress.Proofs.Disk.Excluding
import FeaturePress.Proofs.Project.Accounting
import FeaturePress.Proofs.Project.Lineage
import FeaturePress.Proofs.Project.SameRefresh

/-! One feature among others. What a build makes of a feature depends on this feature, on what preparing it
reads, on its own cached form and entry, and on the step groups. So two projects that differ in other
features and in what was cached of these have the same made of it.
-/

namespace FeaturePress.Build

section

variable {config : Config} {preparation : Preparation} {value : Text → Text} {force reuseAllowed : Bool}
  {before refreshed created after left right leftAfter rightAfter : Workspace} {refresh : Refresh}
  {outcome first second : BuildOutcome} {found : List Path} {source path : Path} {names : List Text}
  {place : Location} {entry : Entry}

-----------------------------------------------------------------------------------------
-- What a build makes of one file
-----------------------------------------------------------------------------------------

/-- A cached form is taken as before after a refresh, which writes elsewhere. -/
theorem taken?_of_refresh (tree : before.disk.IsTree) (disjoint : preparation.config.Disjoint before)
    (isSource : preparation.config.IsSource source names)
    (stands : before.disk.entry? (source.place before.disk.current) = some entry)
    (ran : Refresh.run preparation.config.stepGroups force before = .ok refresh refreshed)
    : taken? preparation reuseAllowed source refreshed = taken? preparation reuseAllowed source before := by
  have frame := ((Refresh.confined_run preparation.config.stepGroups force before).ofOk ran).frame
  apply taken?_of_frame frame tree (down_cachedPath disjoint isSource)
  · intro upper above changes
    obtain ⟨path, isDocument, rfl⟩ := changes_refreshTerritory changes
    rw [place_cachedPath isSource] at above
    exact (disjoint.cache_document isDocument).symm.not_both above (List.prefix_append _ _)
  · have sameStore : known? source refreshed = known? source { before with disk := refreshed.disk } := by
      unfold known?
      rw [Refresh.metadata_run ran]
    have notWritten : ∀ record, before.metadata.file? = some record →
        ¬ Refresh.Writes preparation.config.stepGroups before (record.place before.disk.current) := by
      intro record isRecord writes
      have apart {path : Path} (isDocument : path ∈ [preparation.config.stepGroups.catalog,
          preparation.config.stepGroups.bindings] ++ before.provenance.file?.toList)
          : record.place before.disk.current ≠ path.place before.disk.current :=
        (disjoint.record_document isRecord isDocument).ne
      rcases writes with (same | same) | ⟨path, isPath, same⟩
      · exact apart (by simp) same
      · exact apart (by simp) same
      · exact apart (by simp [isPath]) same
    exact sameStore.trans (known?_of_grows (Refresh.grows_run ran) tree disjoint notWritten)
  · apply modified_of_beside frame tree disjoint isSource _ stands
    exact ((refreshWithinReady _ before).trans (readyWithinBuild _ before)).beside
      (beside_authored disjoint (Or.inl rfl))

/-- The outcome of a file and its output, by the files and the cached forms that there are before a build. -/
def madeOf (config : Config) (value : Text → Text) (force reuseAllowed : Bool) (before : Workspace)
    (source : Path)
    : FileOutcome × Option Content :=
  made (taken? ⟨config, catalogOf config force before, value⟩ reuseAllowed source before)
    (preparedUnder config value (catalogOf config force before) before.disk source)

/-- A build that has refreshed the step groups, listed the files and made the output tree anew, where what
preparing some of the files reads is spared.
-/
structure Started (config : Config) (value : Text → Text) (inputs : List Path) (force : Bool)
    (before : Workspace) (refresh : Refresh) (refreshed : Workspace) (found : List Path) (created : Workspace)
    : Prop where
  got : ready config force before = .ok (refresh, found) created
  refreshing : Refresh.run config.stepGroups force before = .ok refresh refreshed
  listing : refreshed.disk.featureFiles config.featuresDirectory [config.stepGroups.sourceDirectory] = .ok found
  same : created = { refreshed with disk := created.disk }
  reset : Disk.Frame (resetTerritory config refreshed) refreshed.disk created.disk
  soundBefore : Sound config value inputs before
  soundRefreshed : Sound config value inputs refreshed
  sound : Sound config value inputs created
  renewed : Disk.Renewed config.outputDirectory created.disk
  listed : Listed config found
  stands : ∀ source ∈ found, created.disk.entry? (source.place created.disk.current) ≠ none

namespace Started

variable {inputs : List Path}

/-- The files are those that were listed before the refresh. -/
theorem listed_before (started : Started config value inputs force before refresh refreshed found created)
    : before.disk.featureFiles config.featuresDirectory [config.stepGroups.sourceDirectory] = .ok found := by
  have disjoint := started.soundBefore.disjoint
  have confined := (started.soundBefore.of_refresh started.refreshing).1
  rw [← started.listing, confined.frame.featureFiles_of_beside started.soundBefore.tree
    (disjoint.down _ (List.mem_cons_self ..)) (beside_authored disjoint (Or.inl rfl))]

/-- A cached form is taken as before the build. -/
theorem taken?_eq (started : Started config value inputs force before refresh refreshed found created)
    (member : source ∈ found) (catalog : Catalog)
    : taken? ⟨config, catalog, value⟩ reuseAllowed source created
        = taken? ⟨config, catalog, value⟩ reuseAllowed source before := by
  let preparation : Preparation := ⟨config, catalog, value⟩
  obtain ⟨names, isSource⟩ := started.listed.isSource source member
  obtain ⟨_, early, -, -, stood, -⟩ :=
    Disk.file_of_mem_featureFiles started.soundBefore.tree.proper started.listed_before member
  obtain ⟨_, late, -, -, stands, -⟩ :=
    Disk.file_of_mem_featureFiles started.soundRefreshed.tree.proper started.listing member
  have ofReset : taken? preparation reuseAllowed source { refreshed with disk := created.disk }
      = taken? preparation reuseAllowed source refreshed :=
    taken?_of_reset started.reset started.soundRefreshed.tree started.soundRefreshed.disjoint isSource stands
  have ofRefresh : taken? preparation reuseAllowed source refreshed
      = taken? preparation reuseAllowed source before :=
    taken?_of_refresh started.soundBefore.tree started.soundBefore.disjoint isSource stood started.refreshing
  rw [started.same]
  exact ofReset.trans ofRefresh

/-- A file is prepared as before the build. -/
theorem prepared_eq (started : Started config value inputs force before refresh refreshed found created)
    (isInput : source ∈ inputs) (catalog : Catalog)
    : preparedUnder config value catalog created.disk source
        = preparedUnder config value catalog before.disk source := by
  have getting := ((confined_ready config force before).ofOk started.got).mono (readyWithinBuild config before)
  exact preparedUnder_of_agree catalog (getting.frame.agree.mono (started.soundBefore.spared source isInput))

/-- What is made of a file, by its cached form and the files that there were before. -/
theorem made (started : Started config value inputs force before refresh refreshed found created)
    (isInput : source ∈ inputs) (member : source ∈ found) (isSource : config.IsSource source names)
    {files : List (Path × FileOutcome)}
    (built : buildFiles (preparationOn created.disk config value) reuseAllowed found created = (files, after))
    (dated : Dated before.disk.clock after.disk.clock)
    : (∀ result, (source, result) ∈ files ↔ result = (madeOf config value force reuseAllowed before source).1)
        ∧ output? config after.disk source = (madeOf config value force reuseAllowed before source).2 := by
  have areSources : ∀ source ∈ found, ∃ names,
      (preparationOn created.disk config value).config.IsSource source names := started.listed.isSource
  have underway : Underway config found found created :=
    .start started.sound.tree started.sound.disjoint started.renewed started.listed
  have steady : Steady (preparationOn created.disk config value) source created := by
    refine ⟨started.stands source member, fun place reads => ?_⟩
    exact (filesWithinBuild config created).spares (started.sound.spared source isInput place reads)
  have later := ((confined_ready config force before).ofOk started.got).frame.clock
  have building := confined_buildFiles reuseAllowed created areSources
  have datedFiles : Dated created.disk.clock (buildFiles (preparationOn created.disk config value)
      reuseAllowed found created).2.disk.clock := by
    rw [built]
    exact dated.mono later le_rfl
  obtain ⟨isBuilt, shown⟩ := made_of_buildFiles started.listed underway steady member isSource datedFiles
  have fileNames := map_fst_buildFiles (preparationOn created.disk config value) reuseAllowed found created
  have samePrepared : (preparationOn created.disk config value).prepared created.disk source
      = preparedUnder config value (catalogOf config force before) before.disk source := by
    rw [preparationOn_of_ready started.got]
    exact started.prepared_eq isInput _
  have sameTaken : taken? (preparationOn created.disk config value) reuseAllowed source created
      = taken? ⟨config, catalogOf config force before, value⟩ reuseAllowed source before := by
    rw [preparationOn_of_ready started.got]
    exact started.taken?_eq member _
  rw [samePrepared, sameTaken, built] at isBuilt shown
  rw [built] at fileNames building
  refine ⟨fun result => ⟨fun isOther => ?_, fun same => same ▸ isBuilt⟩, ?_⟩
  · exact outcome_unique (fileNames ▸ started.listed.once) isOther isBuilt
  · rw [output?_of_isSource isSource, building.frame.current]
    exact shown

/-- The files that were listed before are shared out over the lists of the outcome. -/
theorem sharesOut (started : Started config value inputs force before refresh refreshed found created)
    (built : buildFiles (preparationOn created.disk config value) reuseAllowed found created
      = (outcome.files, after))
    : outcome.SharesOut found := by
  have fileNames := map_fst_buildFiles (preparationOn created.disk config value) reuseAllowed found created
  rw [built] at fileNames
  rw [← fileNames]
  exact BuildOutcome.sharesOut (fileNames ▸ started.listed.once)

/-- A file that is not listed has no outcome and no output. -/
theorem unlisted (started : Started config value inputs force before refresh refreshed found created)
    (absent : source ∉ found) (isSource : config.IsSource source names) {files : List (Path × FileOutcome)}
    (built : buildFiles (preparationOn created.disk config value) reuseAllowed found created = (files, after))
    : (∀ result, (source, result) ∉ files) ∧ output? config after.disk source = none := by
  have disjoint := started.soundBefore.disjoint
  have fileNames := map_fst_buildFiles (preparationOn created.disk config value) reuseAllowed found created
  rw [built] at fileNames
  constructor
  · intro result isBuilt
    apply absent
    rw [← fileNames]
    exact List.mem_map_of_mem isBuilt
  · rw [output?_of_isSource isSource]
    apply Option.eq_none_iff_forall_ne_some.mpr
    intro content shown
    obtain ⟨other, member, isOther⟩ := source_of_output started.soundBefore.tree disjoint.apart
      (started.soundBefore.tree.direct disjoint.down_output) started.got built shown
    exact absent (isSource.1.trans isOther.1.symm ▸ member)

end Started

-----------------------------------------------------------------------------------------
-- Projects that differ in other features
-----------------------------------------------------------------------------------------

/-- The places of the cached form of a feature and of the step-group documents. -/
def ownPlaces (config : Config) (source : Path) (start : Location) : List Location :=
  [cachedPlace config source start, config.stepGroups.sourceDirectory.place start]

/-- A place of other features: it lies below the features directory or in the cache, or it is the record of
cached files. Preparing the feature does not read it, it holds no step-group document and not the cached
form of the feature, and it is not on the way to these where they stand.
-/
structure IsForeign (config : Config) (value : Text → Text) (source : Path) (workspace : Workspace)
    (place : Location)
    : Prop where
  inside : (config.featuresDirectory.place workspace.disk.current <+: place
      ∧ place ≠ config.featuresDirectory.place workspace.disk.current)
    ∨ config.featureCache.directory.place workspace.disk.current <+: place
    ∨ ∃ record, workspace.metadata.file? = some record ∧ place = record.place workspace.disk.current
  unread : ¬ Reads config value workspace.disk source place
  outside : ¬ config.stepGroups.sourceDirectory.place workspace.disk.current <+: place
  way : ∀ own ∈ ownPlaces config source workspace.disk.current, place <+: own →
    place ≠ own ∧ workspace.disk.entry? own = none

/-- Two projects that differ in other features and in what was cached of these at most: elsewhere the same
stands on both disks, up to the times of directories, and what is known of the feature is the same.
-/
structure Alike (config : Config) (value : Text → Text) (source : Path) (left right : Workspace) : Prop where
  still : Disk.Still (fun place => ¬ IsForeign config value source left place) left.disk right.disk
  artifacts : ∀ path ∈ [config.stepGroups.catalog, config.stepGroups.bindings],
    left.disk.entry? (path.place left.disk.current) = right.disk.entry? (path.place left.disk.current)
  provenance : left.provenance = right.provenance
  metadata : left.metadata.file? = right.metadata.file?
  known : known? source left = known? source right

/-- No place on the way to the cached form or to the step-group documents is foreign where these stand. -/
theorem not_isForeign_of_stands {own : Location} (isOwn : own ∈ ownPlaces config source left.disk.current)
    (stands : left.disk.entry? own ≠ none) (above : place <+: own)
    : ¬ IsForeign config value source left place :=
  fun foreign => stands (foreign.way own isOwn above).2

namespace Alike

/-- The cached form of the feature is taken in both or in none. -/
theorem taken?_eq (alike : Alike config value source left right) (disjoint : config.Disjoint left)
    (isSource : config.IsSource source names) (timed : left.disk.modified source = right.disk.modified source)
    (catalog : Catalog)
    : taken? ⟨config, catalog, value⟩ reuseAllowed source left
        = taken? ⟨config, catalog, value⟩ reuseAllowed source right := by
  have agree := alike.still.agree
  have known := alike.known
  have down := down_cachedPath disjoint isSource
  apply Option.ext
  intro text
  rw [taken?_eq_some_iff, taken?_eq_some_iff, known]
  unfold FeatureCache.isUnchangedSince
  rw [timed]
  by_cases stands : left.disk.entry? (cachedPlace config source left.disk.current) = none
  · have same := agree.same (cachedPlace config source left.disk.current)
      fun foreign => (foreign.way _ (by simp [ownPlaces]) (List.prefix_refl _)).1 rfl
    rw [stands, agree.current, Option.map_none, eq_comm, Option.map_eq_none_iff] at same
    have unread {disk : Disk} (vacant : disk.entry? (cachedPlace config source disk.current) = none)
        : disk.read (FeatureCache.cachedPath config source) ≠ .ok text := by
      intro reads
      obtain ⟨entry, there, -⟩ := Disk.read_eq_ok reads
      have standing := Disk.find_eq_ok there
      rw [cachedPlace] at vacant
      simp [vacant] at standing
    have unreadLeft := unread stands
    have unreadRight := unread same
    tauto
  · have inside : Disk.Inside (fun place => ¬ IsForeign config value source left place) left.disk.current
        (FeatureCache.cachedPath config source) := by
      intro place visited
      exact not_isForeign_of_stands (by simp [ownPlaces]) stands (down.prefix_of_mem_visited visited)
    rw [agree.holds inside, agree.read inside]

end Alike

end

-----------------------------------------------------------------------------------------
-- Features that come and go beside one that is reused
-----------------------------------------------------------------------------------------

namespace Example

/-- The project with an examples table and its record of cached files, which has entries besides that of the
feature.
-/
def recorded (others : String) : Workspace where
  disk := restocked.disk.put [['m']] (file
    ("\x7b\"f/c.feature\":\x7b\"filePath\":\"k/c.feature\",\"updatedAt\":\"1970-01-01T00:00:00.107Z\"\x7d"
      ++ others ++ "\x7d") 107)
  provenance := restocked.provenance
  metadata := .file (.of "m")

end Example

namespace Example

/-- A project without the cached forms of the other features. -/
def uncached (workspace : Workspace) : Workspace :=
  { workspace with disk := workspace.disk.drop [['k'], ['a']] }

end Example

end FeaturePress.Build
