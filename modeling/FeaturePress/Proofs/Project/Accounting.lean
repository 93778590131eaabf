import FeaturePress.Proofs.Project.Repeat

/-! A build accounts for every feature that it lists: each is in one of its lists, and the output tree has
what was made of it and nothing else. So no output stays from an earlier build.
-/

namespace FeaturePress

-----------------------------------------------------------------------------------------
-- The lists of a build
-----------------------------------------------------------------------------------------

namespace BuildOutcome

variable {outcome : BuildOutcome} {source : Path} {reason : Text}

/-- The lists of an outcome share out some files: each is in one of them once, and they are in order. -/
structure SharesOut (outcome : BuildOutcome) (found : List Path) : Prop where
  once : (outcome.processed ++ outcome.reused ++ outcome.failed.map Prod.fst).Nodup
  all : (outcome.processed ++ outcome.reused ++ outcome.failed.map Prod.fst).Perm found
  processed : outcome.processed.Sublist found
  reused : outcome.reused.Sublist found
  failed : (outcome.failed.map Prod.fst).Sublist found

/-- A file that failed is in the list with the reason of its error. -/
theorem mem_failed_iff
    : (source, reason) ∈ outcome.failed
      ↔ ∃ error, (source, .failed error) ∈ outcome.files ∧ BuildOutcome.reason error = reason := by
  unfold failed
  rw [List.mem_filterMap]
  constructor
  · rintro ⟨⟨path, result⟩, member, same⟩
    cases result with
    | failed error =>
        obtain ⟨rfl, rfl⟩ := Prod.mk.inj (Option.some.inj same)
        exact ⟨error, member, rfl⟩
    | processed | reused => simp at same
  · rintro ⟨error, member, rfl⟩
    exact ⟨_, member, rfl⟩

/-- The files that failed, as a part of all. -/
theorem failed_sublist (refresh : Refresh) (files : List (Path × FileOutcome))
    : ((BuildOutcome.mk refresh files).failed.map Prod.fst).Sublist (files.map Prod.fst) := by
  unfold failed
  dsimp only
  induction files with
  | nil => exact .slnil
  | cons file rest ih =>
      obtain ⟨path, result⟩ := file
      cases result with
      | failed error => exact ih.cons_cons path
      | processed | reused => exact ih.cons path

/-- Every file is in the list of its outcome, by induction on the files. -/
theorem lists_perm (refresh : Refresh) (files : List (Path × FileOutcome))
    : ((BuildOutcome.mk refresh files).processed ++ (BuildOutcome.mk refresh files).reused
        ++ (BuildOutcome.mk refresh files).failed.map Prod.fst).Perm (files.map Prod.fst) := by
  induction files with
  | nil => exact .rfl
  | cons file rest ih =>
      obtain ⟨path, result⟩ := file
      cases result with
      | processed => exact ih.cons path
      | reused =>
          refine List.Perm.trans ?_ (ih.cons path)
          exact (List.perm_middle (a := path)).append_right _
      | failed error => exact List.perm_middle.trans (ih.cons path)

/-- The lists share out the files when each of these was built once. -/
theorem sharesOut (once : (outcome.files.map Prod.fst).Nodup)
    : outcome.SharesOut (outcome.files.map Prod.fst) where
  once := (lists_perm outcome.refresh outcome.files).nodup_iff.mpr once
  all := lists_perm outcome.refresh outcome.files
  processed := List.filter_sublist.map _
  reused := List.filter_sublist.map _
  failed := failed_sublist outcome.refresh outcome.files

end BuildOutcome

namespace Build

section

variable {config : Config} {preparation : Preparation} {value : Text → Text} {force reuseAllowed : Bool}
  {before refreshed created after workspace : Workspace} {refresh : Refresh} {outcome : BuildOutcome}
  {sources found : List Path} {source : Path} {names : List Text}

-----------------------------------------------------------------------------------------
-- What is shown of one file
-----------------------------------------------------------------------------------------

/-- What is shown of a file by its outcome: its output has the prepared text when it was prepared, and that
of its cached form when this was taken, and it has no output when preparing it failed.
-/
def Shows (config : Config) (prepared : Except PrepareError Text) (disk : Disk) (names : List Text)
    : FileOutcome → Prop
  | .processed => ∃ text, prepared = .ok text
      ∧ disk.content? (config.outputDirectory.place disk.current ++ names) = some (.text text)
  | .reused => ∃ text,
      disk.content? (config.featureCache.directory.place disk.current ++ names) = some (.text text)
      ∧ disk.content? (config.outputDirectory.place disk.current ++ names) = some (.text text)
  | .failed _ => disk.content? (config.outputDirectory.place disk.current ++ names) = none

/-- A change elsewhere shows the same of a file. -/
theorem Shows.later {bounds : Disk.Territory} {prepared : Except PrepareError Text} {early late : Disk}
    {result : FileOutcome} (shows : Shows config prepared early names result)
    (frame : Disk.Frame bounds early late)
    (cached : ¬ bounds.Changes (config.featureCache.directory.place early.current ++ names))
    (output : ¬ bounds.Changes (config.outputDirectory.place early.current ++ names))
    : Shows config prepared late names result := by
  have sameCached := frame.content?_kept cached
  have sameOutput := frame.content?_kept output
  rw [← frame.current] at sameCached sameOutput
  cases result with
  | processed =>
      obtain ⟨text, isPrepared, stands⟩ := shows
      exact ⟨text, isPrepared, by rw [sameOutput, frame.current, stands]⟩
  | reused =>
      obtain ⟨text, form, stands⟩ := shows
      exact ⟨text, by rw [sameCached, frame.current, form], by rw [sameOutput, frame.current, stands]⟩
  | failed error =>
      unfold Shows at shows ⊢
      rw [sameOutput, frame.current, shows]

/-- Preparing a source that fails leaves new directories at most. -/
theorem frame_prepare_of_error {disk written : Disk} {error : PrepareError}
    (isSource : preparation.config.IsSource source names)
    (failed : preparation.run disk source = (.error error, written))
    : Disk.Frame (.way disk.current (preparation.config.outputDirectory.below names)) disk written := by
  unfold Preparation.run at failed
  rw [Preparation.outputPath_of_isSource isSource] at failed
  dsimp only at failed
  split at failed
  · obtain rfl : disk = written := congrArg Prod.snd failed
    exact .refl _ _
  · split at failed
    · simp at failed
    · next wrote =>
        obtain rfl := congrArg Prod.snd failed
        exact Disk.frame_write_of_error wrote

/-- Restoring a source that fails leaves new directories at most. -/
theorem frame_restore_of_error {cached : Path} {restored : Workspace}
    (isSource : preparation.config.IsSource source names)
    (failed : restore preparation source cached workspace = (false, restored))
    : Disk.Frame (.way workspace.disk.current (preparation.config.outputDirectory.below names)) workspace.disk
        restored.disk := by
  unfold restore Disk.copy at failed
  rw [Preparation.outputPath_of_isSource isSource] at failed
  dsimp only at failed
  cases reads : workspace.disk.read cached with
  | error cause =>
      rw [reads] at failed
      obtain ⟨-, rfl⟩ := Prod.mk.inj failed
      exact .refl _ _
  | ok text =>
      rw [reads] at failed
      rcases wrote : workspace.disk.write (preparation.config.outputDirectory.below names) (.text text)
        with ⟨_ | _, written⟩
      · simp only [wrote] at failed
        obtain ⟨-, rfl⟩ := Prod.mk.inj failed
        exact Disk.frame_write_of_error wrote
      · simp [wrote, Except.isOk, Except.toBool] at failed

/-- What is shown of a file that was prepared, where it had no output. -/
theorem shows_process (apart : preparation.config.Apart workspace)
    (isSource : preparation.config.IsSource source names)
    (vacant : workspace.disk.content?
      (preparation.config.outputDirectory.place workspace.disk.current ++ names) = none)
    : Shows preparation.config (preparation.prepared workspace.disk source)
        (process preparation source workspace).2.disk names (process preparation source workspace).1 := by
  have current := (confined_process workspace isSource).frame.current
  rcases ran : preparation.run workspace.disk source with ⟨_ | ⟨target, content⟩, written⟩
  · have kept := (frame_prepare_of_error isSource ran).content?_of_way
    unfold process at current ⊢
    simp only [ran] at current ⊢
    unfold Shows
    rw [current]
    exact (kept _).trans vacant
  · obtain ⟨isTarget, prepared, wrote⟩ := prepare_eq_ok ran
    rw [Preparation.outputPath_of_isSource isSource] at isTarget
    obtain rfl := Except.ok.inj isTarget
    have confined : Command.Confined _ workspace { workspace with disk := written } :=
      .ofFrame wrote.frame
    have there := wrote.stands
    rw [Path.place_below _ isSource.2, ← wrote.frame.current] at there
    have kept := content?_cache (apart_of_confined apart confined) isSource content
    unfold process at current ⊢
    simp only [ran] at current ⊢
    refine ⟨content, prepared, ?_⟩
    rw [current, ← wrote.frame.current]
    exact kept.trans there

/-- What is shown of a file that was built, where it had no output and building it changes nothing that
preparing it reads.
-/
theorem shows_buildFile (reuseAllowed : Bool) (apart : preparation.config.Apart workspace)
    (isSource : preparation.config.IsSource source names)
    (spared : ∀ place, preparation.Reads workspace.disk source place →
      (fileTerritory preparation.config names workspace).Spares workspace.disk place)
    (vacant : workspace.disk.content?
      (preparation.config.outputDirectory.place workspace.disk.current ++ names) = none)
    : Shows preparation.config (preparation.prepared workspace.disk source)
        (buildFile preparation reuseAllowed source workspace).2.disk names
        (buildFile preparation reuseAllowed source workspace).1 := by
  rcases buildFile_cases preparation reuseAllowed source workspace with
    ⟨restored, -, -, done, built⟩ | ⟨restored, failed, built⟩ | built
  · obtain ⟨text, reads, wrote, -⟩ := restore_eq_true isSource done
    have form : workspace.disk.content?
        (preparation.config.featureCache.directory.place workspace.disk.current ++ names)
        = some (.text text) := content?_of_read_cached isSource reads
    have there := wrote.stands
    rw [Path.place_below _ isSource.2] at there
    rw [← wrote.frame.content?_kept (not_output_of_cached apart isSource.2)] at form
    rw [← wrote.frame.current] at form there
    rw [built]
    exact ⟨text, form, there⟩
  · have confined := confined_restore workspace (FeatureCache.cachedPath preparation.config source) isSource
    have kept := (frame_restore_of_error isSource failed).content?_of_way
    rw [failed] at confined
    have agree := confined.frame.agree.mono fun place reads =>
      (withinOutput preparation.config names workspace).spares (spared place reads)
    have shows := shows_process (apart_of_confined apart confined) isSource (by
      rw [confined.frame.current]
      exact (kept _).trans vacant)
    rw [Preparation.prepared_of_agree agree] at shows
    rw [built]
    exact shows
  · rw [built]
    exact shows_process apart isSource vacant

/-- What is shown of a file after all were built: what is made of the others is elsewhere, and leaves what
preparing the file reads.
-/
theorem shows_buildFiles {result : FileOutcome} (once : sources.Nodup)
    (areSources : ∀ other ∈ sources, ∃ names, preparation.config.IsSource other names)
    (apart : preparation.config.Apart workspace)
    (isSource : preparation.config.IsSource source names)
    (spared : ∀ place, preparation.Reads workspace.disk source place →
      (filesTerritory preparation.config workspace).Spares workspace.disk place)
    (vacant : workspace.disk.content?
      (preparation.config.outputDirectory.place workspace.disk.current ++ names) = none)
    (member : (source, result) ∈ (buildFiles preparation reuseAllowed sources workspace).1)
    : Shows preparation.config (preparation.prepared workspace.disk source)
        (buildFiles preparation reuseAllowed sources workspace).2.disk names result := by
  obtain ⟨earlier, later, rfl, rfl, last⟩ := exists_turn member
  obtain ⟨absent, -⟩ := List.nodup_cons.mp (List.nodup_middle.mp once)
  obtain ⟨absentEarly, absentLate⟩ := not_or.mp (mt List.mem_append.mpr absent)
  have before := confined_buildFiles reuseAllowed workspace fun other member =>
    areSources other (List.mem_append_left _ member)
  generalize (buildFiles preparation reuseAllowed earlier workspace).2 = between at before last ⊢
  have within := before.mono (sourcesWithinFiles preparation.config earlier workspace)
  have apartBetween := apart_of_confined apart before
  have agree := within.frame.agree.mono spared
  have shows := shows_buildFile reuseAllowed apartBetween isSource (fun place reads => by
      rw [Preparation.reads_of_agree agree] at reads
      have sparedBetween := within.frame.spares_kept (spared place reads)
      rw [← stable_filesTerritory preparation.config _ _ _ within] at sparedBetween
      exact (fileWithinFiles isSource.2 preparation.config between).spares sparedBetween)
    (by
      rw [before.frame.current,
        before.frame.content?_kept (outside_of_not_mem apart isSource absentEarly).2]
      exact vacant)
  rw [Preparation.prepared_of_agree agree] at shows
  have here := confined_buildFile reuseAllowed between isSource
  have after := confined_buildFiles reuseAllowed (buildFile preparation reuseAllowed source between).2
    fun other member => areSources other (List.mem_append_right _ (List.mem_cons_of_mem _ member))
  obtain ⟨cached, output⟩ :=
    outside_of_not_mem (apart_of_confined apartBetween here) isSource absentLate
  rw [last]
  exact shows.later after.frame cached output

-----------------------------------------------------------------------------------------
-- What stays from before
-----------------------------------------------------------------------------------------

/-- The output directory and the catalogue are reached through what stands only, if they stand, and the
catalogue not through the output tree. It is not the record of cached files.
-/
structure Reached (config : Config) (workspace : Workspace) : Prop where
  output : workspace.disk.Direct config.outputDirectory
  catalog : workspace.disk.Direct config.stepGroups.catalog
  way : ∀ place ∈ config.stepGroups.catalog.visited workspace.disk.current,
    ¬ config.outputDirectory.place workspace.disk.current <+: place
  record : ∀ path, workspace.metadata.file? = some path →
    path.place workspace.disk.current ≠ config.stepGroups.catalog.place workspace.disk.current

theorem catalog_mem_documentPaths (config : Config) (workspace : Workspace)
    : config.stepGroups.catalog ∈ documentPaths config workspace := by
  simp [documentPaths]

/-- No output stands when a build has got ready: the old tree was removed, and if it was missing it held
nothing.
-/
theorem content?_of_ready (tree : before.disk.IsTree) (apart : config.Apart before)
    (direct : before.disk.Direct config.outputDirectory)
    (got : ready config force before = .ok (refresh, found) created)
    : created.disk.content? (config.outputDirectory.place created.disk.current ++ names) = none := by
  obtain ⟨refreshed, emptied, -, ran, -, removed, made, -⟩ := ready_eq_ok got
  have first := ((Refresh.confined_run config.stepGroups force before).ofOk ran).frame
  have second := Disk.frame_removeTree refreshed.disk config.outputDirectory
  have third := Disk.frame_createDirectories emptied config.outputDirectory
  rw [removed] at second
  rw [made] at third
  rw [third.content?_of_way, third.current, second.current]
  refine Option.eq_none_iff_forall_ne_some.mpr fun content stands => ?_
  -- a file that is left has stood before the refresh, and so has all that leads to its tree
  have outside : ¬ (Refresh.territory config.stepGroups before).Changes
      (config.outputDirectory.place refreshed.disk.current ++ names) := by
    intro changes
    obtain ⟨path, isDocument, same⟩ := changes_refreshTerritory changes
    rw [first.current] at same
    exact (apart.documents path isDocument).1 (same ▸ List.prefix_append ..)
  have stood := second.content?_stood id stands
  rw [first.content?_kept outside, first.current] at stood
  obtain ⟨entry, standing, -⟩ := Disk.content?_eq_some_iff.mp stood
  have above := tree.stands_above (List.prefix_append _ names)
    (by rw [standing]; exact Option.some_ne_none _)
  have vacant := Disk.vacant_of_removeTree_of_stands (fun place member => by
    rw [first.current] at member
    exact (Refresh.grows_run ran).stands (direct above place member)) removed
    (List.prefix_append _ names)
  simp [Disk.content?, vacant] at stands

/-- When a build has got ready the catalogue is found, or a file that stands at its place is reached through
what stands only.
-/
theorem catalog_of_ready (reached : Reached config before)
    (got : ready config force before = .ok (refresh, found) created)
    : (∃ entry, created.disk.find config.stepGroups.catalog = .ok entry ∧ entry.isDirectory = false)
      ∨ ∀ entry, created.disk.entry? (config.stepGroups.catalog.place created.disk.current) = some entry →
          entry.isDirectory = false →
          ∀ place ∈ config.stepGroups.catalog.visited created.disk.current,
            created.disk.entry? place ≠ none := by
  obtain ⟨refreshed, emptied, -, ran, -, removed, made, -⟩ := ready_eq_ok got
  have first := (Refresh.confined_run config.stepGroups force before).ofOk ran
  have reset := frame_reset removed made
  -- making the output tree anew leaves the way to the catalogue
  have outside : ∀ place ∈ config.stepGroups.catalog.visited refreshed.disk.current,
      ¬ (resetTerritory config refreshed).Changes place := by
    intro place member changes
    have below := below_of_changes_resetTerritory changes
    rw [first.frame.current] at member below
    exact reached.way place member below
  rcases Refresh.found_catalog_of_run ran with rfl | ⟨entry, found, isFile⟩
  · refine Or.inr fun entry stands isFile place member => ?_
    rw [reset.current] at stands member
    have stood := reset.file_stood (outside _ (Path.place_mem_visited ..)) stands isFile
    obtain ⟨other, standing⟩ := Option.ne_none_iff_exists'.mp
      (reached.catalog (by rw [stood]; exact Option.some_ne_none _) place member)
    rcases reset.kept (outside place member) standing with same | ⟨-, -, time, same⟩
    · rw [same]; exact Option.some_ne_none _
    · rw [same]; exact Option.some_ne_none _
  · exact Or.inl ⟨entry, reset.find_kept found isFile (Disk.Territory.avoids_of_visited outside), isFile⟩

/-- Building files leaves a document alone that is not the record of the cache. -/
theorem outside_of_document {path : Path} (apart : config.Apart workspace)
    (isDocument : path ∈ documentPaths config workspace)
    (record : ∀ record, workspace.metadata.file? = some record →
      record.place workspace.disk.current ≠ path.place workspace.disk.current)
    : ¬ (sourcesTerritory config found workspace).Changes (path.place workspace.disk.current) := by
  intro changes
  obtain ⟨names, ⟨source, member, isSource⟩, changes⟩ := Disk.Territory.changes_any_iff.mp changes
  rcases (changes_fileTerritory_iff isSource.2).mp changes with same | same | ⟨other, isRecord, same⟩
  · exact (apart.documents path isDocument).1 (same ▸ List.prefix_append ..)
  · exact (apart.documents path isDocument).2 (same ▸ List.prefix_append ..)
  · exact record other isRecord same.symm

/-- The catalogue is loaded after a build as it was when the build had got ready. -/
theorem loadOrEmpty_of_run {files : List (Path × FileOutcome)} (apart : config.Apart before)
    (reached : Reached config before)
    (got : ready config force before = .ok (refresh, found) created)
    (built : buildFiles (preparationOn created.disk config value) reuseAllowed found created
      = (files, after))
    (areSources : ∀ source ∈ found, ∃ names, config.IsSource source names)
    : Catalog.loadOrEmpty after.disk config.stepGroups.catalog
        = Catalog.loadOrEmpty created.disk config.stepGroups.catalog := by
  have getting := (confined_ready config force before).ofOk got
  have apartCreated := apart_of_confined apart getting
  have arePrepared : ∀ source ∈ found, ∃ names,
      (preparationOn created.disk config value).config.IsSource source names := areSources
  have grows := grows_buildFiles reuseAllowed created arePrepared
  rw [built] at grows
  have plain : ¬ (sourcesTerritory config found created).Changes _ :=
    outside_of_document apartCreated (catalog_mem_documentPaths config created)
    fun path isRecord => by
      rw [getting.frame.current]
      exact reached.record path (getting.metadata ▸ isRecord)
  refine Catalog.loadOrEmpty_congr fun text => ⟨fun reads => ?_, fun reads => grows.read reads plain⟩
  obtain ⟨entry, foundLater, readable, kind⟩ := Disk.read_eq_ok reads
  have isFile : entry.isDirectory = false := by simp [Entry.isDirectory, kind]
  have stood := grows.file_stood (grows.current ▸ Disk.find_eq_ok foundLater) isFile plain
  rcases catalog_of_ready reached got with ⟨other, foundEarly, isFileEarly⟩ | direct
  · have same := grows.find_file foundEarly isFileEarly plain
    unfold Disk.read at reads ⊢
    rwa [foundEarly, ← same]
  · exact grows.read_before reads plain fun _ => direct entry stood isFile

-----------------------------------------------------------------------------------------
-- The output tree
-----------------------------------------------------------------------------------------

/-- The output tree after a build: a file that was prepared has the text that it is prepared to under the
stored catalogue, one that was reused that of its cached form, one that failed has no output, and there
is nothing else.
-/
structure OutputTree (config : Config) (value : Text → Text) (outcome : BuildOutcome) (disk : Disk)
    : Prop where
  processed : ∀ source ∈ outcome.processed, ∃ text,
    preparedUnder config value (Catalog.loadOrEmpty disk config.stepGroups.catalog) disk source = .ok text
      ∧ output? config disk source = some (.text text)
  reused : ∀ source ∈ outcome.reused, ∃ text,
    disk.content? (cachedPlace config source disk.current) = some (.text text)
      ∧ output? config disk source = some (.text text)
  failed : ∀ failure ∈ outcome.failed, output? config disk failure.1 = none
  nothingElse : ∀ names content,
    disk.content? (config.outputDirectory.place disk.current ++ names) = some content →
      ∃ source ∈ outcome.processed ++ outcome.reused, config.IsSource source names

/-- A file in the output tree is the output of a file that was built. -/
theorem source_of_output {files : List (Path × FileOutcome)} {content : Content}
    (tree : before.disk.IsTree) (apart : config.Apart before)
    (direct : before.disk.Direct config.outputDirectory)
    (got : ready config force before = .ok (refresh, found) created)
    (built : buildFiles (preparationOn created.disk config value) reuseAllowed found created
      = (files, after))
    (stands : after.disk.content? (config.outputDirectory.place after.disk.current ++ names)
      = some content)
    : ∃ source ∈ found, config.IsSource source names := by
  obtain ⟨-, areSources⟩ := isSource_of_ready tree.proper got
  have apartCreated := apart_of_confined apart ((confined_ready config force before).ofOk got)
  have arePrepared : ∀ source ∈ found, ∃ names,
      (preparationOn created.disk config value).config.IsSource source names := areSources
  have building := confined_buildFiles reuseAllowed created arePrepared
  rw [built] at building
  rw [building.frame.current] at stands
  have changes : (sourcesTerritory config found created).Changes
      (config.outputDirectory.place created.disk.current ++ names) := by
    by_contra outside
    rw [building.frame.content?_kept outside, content?_of_ready tree apart direct got] at stands
    simp at stands
  obtain ⟨others, ⟨source, member, isSource⟩, changes⟩ := Disk.Territory.changes_any_iff.mp changes
  refine ⟨source, member, ?_⟩
  by_contra differ
  refine output_outside apartCreated isSource.2 (fun same => differ ?_) changes
  rwa [same]

/-- What is shown of a file after a build, under the catalogue that is stored then. -/
theorem shows_of_run {result : FileOutcome} {files : List (Path × FileOutcome)} (tree : before.disk.IsTree)
    (apart : config.Apart before) (reached : Reached config before)
    (got : ready config force before = .ok (refresh, found) created)
    (built : buildFiles (preparationOn created.disk config value) reuseAllowed found created
      = (files, after))
    (spared : ∀ place, Reads config value before.disk source place →
      (territory config before).Spares before.disk place)
    (isSource : config.IsSource source names) (member : (source, result) ∈ files)
    : Shows config
        (preparedUnder config value (Catalog.loadOrEmpty after.disk config.stepGroups.catalog) after.disk source)
        after.disk names result := by
  obtain ⟨once, areSources⟩ := isSource_of_ready tree.proper got
  have getting := (confined_ready config force before).ofOk got
  have sparedCreated := spared_of_confined spared (getting.mono (readyWithinBuild config before))
  have sparedFiles : ∀ place, Reads config value created.disk source place →
      (filesTerritory config created).Spares created.disk place := fun place reads =>
    (filesWithinBuild config created).spares (sparedCreated place reads)
  have arePrepared : ∀ source ∈ found, ∃ names,
      (preparationOn created.disk config value).config.IsSource source names := areSources
  have building := (confined_buildFiles reuseAllowed created arePrepared).mono
    (sourcesWithinFiles config found created)
  have catalog := loadOrEmpty_of_run apart reached got built areSources
  have isBuilt : (source, result) ∈ (buildFiles (preparationOn created.disk config value) reuseAllowed found
      created).1 := by
    rw [built]
    exact member
  have shows := shows_buildFiles once arePrepared (apart_of_confined apart getting) isSource sparedFiles
    (content?_of_ready tree apart reached.output got) isBuilt
  rw [built] at building shows
  rw [catalog, preparedUnder_of_agree _ (building.frame.agree.mono sparedFiles)]
  exact shows

/-- A build accounts for every file that it finds: its lists share out the files, and the output tree has
what the lists say and nothing else.
-/
theorem build_accounts_for_files (tree : before.disk.IsTree) (apart : config.Apart before)
    (reached : Reached config before) (ran : run config value force before = .ok outcome after)
    (spared : ∀ source ∈ outcome.files.map Prod.fst, ∀ place,
      Reads config value before.disk source place → (territory config before).Spares before.disk place)
    : ∃ refreshed found, Refresh.run config.stepGroups force before = .ok outcome.refresh refreshed
        ∧ refreshed.disk.featureFiles config.featuresDirectory [config.stepGroups.sourceDirectory]
          = .ok found
        ∧ outcome.SharesOut found ∧ OutputTree config value outcome after.disk := by
  obtain ⟨found, created, got, built⟩ := run_eq_ok ran
  obtain ⟨once, areSources⟩ := isSource_of_ready tree.proper got
  obtain ⟨refreshed, -, -, refreshRan, listing, -⟩ := ready_eq_ok got
  have listed : outcome.files.map Prod.fst = found := by
    rw [← map_fst_buildFiles (preparationOn created.disk config value)
      (allowsReuse config force outcome.refresh) found created, built]
  rw [listed] at spared
  refine ⟨refreshed, found, refreshRan, listing, listed ▸ BuildOutcome.sharesOut (listed ▸ once), ?_⟩
  have inFound {source : Path} {result : FileOutcome} (member : (source, result) ∈ outcome.files)
      : source ∈ found :=
    listed ▸ List.mem_map_of_mem member
  have shows {source : Path} {result : FileOutcome} {names : List Text}
      (isSource : config.IsSource source names) (member : (source, result) ∈ outcome.files) :=
    shows_of_run tree apart reached got built (spared source (inFound member)) isSource member
  refine ⟨fun source member => ?_, fun source member => ?_, fun ⟨source, reason⟩ member => ?_,
    fun names content stands => ?_⟩
  · have isProcessed := mem_processed_iff.mp member
    obtain ⟨names, isSource⟩ := areSources source (inFound isProcessed)
    obtain ⟨text, prepared, stands⟩ := shows isSource isProcessed
    exact ⟨text, prepared, (output?_of_isSource isSource _).trans stands⟩
  · have isReused := mem_reused_iff.mp member
    obtain ⟨names, isSource⟩ := areSources source (inFound isReused)
    obtain ⟨text, form, stands⟩ := shows isSource isReused
    rw [cachedPlace_of_isSource isSource]
    exact ⟨text, form, (output?_of_isSource isSource _).trans stands⟩
  · obtain ⟨error, isFailed, -⟩ := BuildOutcome.mem_failed_iff.mp member
    obtain ⟨names, isSource⟩ := areSources source (inFound isFailed)
    exact (output?_of_isSource isSource _).trans (shows isSource isFailed)
  · obtain ⟨source, member, isSource⟩ := source_of_output tree apart reached.output got built stands
    obtain ⟨⟨_, result⟩, isBuilt, rfl⟩ := List.mem_map.mp (listed ▸ member)
    refine ⟨_, ?_, isSource⟩
    cases result with
    | processed => exact List.mem_append_left _ (mem_processed_iff.mpr isBuilt)
    | reused => exact List.mem_append_right _ (mem_reused_iff.mpr isBuilt)
    | failed error =>
        have absent : after.disk.content? _ = none := shows isSource isBuilt
        simp [absent] at stands

end

-----------------------------------------------------------------------------------------
-- Two features, and an old output
-----------------------------------------------------------------------------------------

namespace Example

theorem reached : Reached config unbuilt where
  output := by decide +kernel
  catalog := by decide +kernel
  way := by decide +kernel
  record := by simp [unbuilt, Store.file?]

/-- A configuration whose output directory lies in the directory of the cache. -/
def nested : Config :=
  { config with outputDirectory := .of "k/o" }

/-- Two features of one name, in the features directory and in a directory of it. -/
def twins : Workspace where
  disk := {
    entries := ⟨[([], directory), ([['f']], directory),
      ([['f'], "c.feature".toList], file "Feature:C" 5), ([['f'], ['o']], directory),
      ([['f'], ['o'], "c.feature".toList], file "Feature:O" 5)], by decide⟩
    current := []
    clock := 100
    canOpen := true }
  provenance := .memory none 0
  metadata := .memory none 0

/-- A configuration whose output directory is reached through another one. -/
def around : Config :=
  { config with outputDirectory := .of "x/../o" }

/-- A feature, and an output that an earlier build has left. -/
def leftover : Workspace where
  disk := {
    entries := ⟨[([], directory), ([['f']], directory),
      ([['f'], "c.feature".toList], file "Feature:C" 5), ([['o']], directory),
      ([['o'], "a.feature".toList], file "Feature:A" 5)], by decide⟩
    current := []
    clock := 100
    canOpen := true }
  provenance := .memory none 0
  metadata := .memory none 0

end Example

set_option maxRecDepth 100000 in
/-- Witness: the example's first build. -/
theorem build_accounts_for_files_cached_feature
    : ∃ outcome refreshed found, run Example.config id false Example.unbuilt = .ok outcome Example.built
        ∧ outcome.processed = [Example.source]
        ∧ Refresh.run Example.config.stepGroups false Example.unbuilt = .ok outcome.refresh refreshed
        ∧ refreshed.disk.featureFiles Example.config.featuresDirectory
          [Example.config.stepGroups.sourceDirectory] = .ok found
        ∧ outcome.SharesOut found ∧ OutputTree Example.config id outcome Example.built.disk := by
  obtain ⟨outcome, ran, files⟩ := Example.exists_built
  have processed : outcome.processed = [Example.source] := by simp [BuildOutcome.processed, files]
  obtain ⟨refreshed, found, accounts⟩ := build_accounts_for_files
    (show Example.unbuilt.disk.IsTree by decide +kernel) Example.apart Example.reached ran
    (by simpa [files] using Example.spared)
  exact ⟨outcome, refreshed, found, ran, processed, accounts⟩

set_option maxRecDepth 100000 in
/-- Counterexample: where the output tree lies in the cache, the cached form of one feature takes the place of
the output of another; and where the output directory is reached through a missing one, an old output
stays.
-/
theorem outputs_overwritten_and_left
    : (Command.value? (run Example.nested id false Example.twins)).map BuildOutcome.processed
        = some [Example.source, .of "f/o/c.feature"]
      ∧ output? Example.nested (Command.left (run Example.nested id false Example.twins)).disk Example.source
        = some (.text "Feature:O".toList)
      ∧ preparedUnder Example.nested id
          (Catalog.loadOrEmpty (Command.left (run Example.nested id false Example.twins)).disk
            Example.nested.stepGroups.catalog)
          (Command.left (run Example.nested id false Example.twins)).disk Example.source
        = .ok "Feature:C".toList
      ∧ (Command.value? (run Example.around id false Example.leftover)).map
          (fun outcome => (outcome.processed, outcome.reused)) = some ([Example.source], [])
      ∧ (Command.left (run Example.around id false Example.leftover)).disk.content?
          (Example.around.outputDirectory.place [] ++ ["a.feature".toList])
        = some (.text "Feature:A".toList) := by
  decide +kernel

end Build

end FeaturePress
