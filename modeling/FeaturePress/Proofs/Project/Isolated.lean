import FeaturePress.Proofs.Project.Accounting
import FeaturePress.Proofs.Project.Rebuild

/-! Isolated projects: what they are made of is kept apart from all that commands generate. A build of such a
project prepares its files from what stood before it. If no operation on the disk fails, then the outcome
and the output of a file are those of its prepared form, unless its cached form is taken.
-/

namespace FeaturePress.Build

section

variable {config : Config} {preparation : Preparation} {value : Text → Text} {force reuseAllowed : Bool}
  {before after created workspace : Workspace} {bounds : Disk.Territory} {outcome : BuildOutcome}
  {refresh : Refresh} {sources found : List Path} {source path : Path} {names : List Text}

-----------------------------------------------------------------------------------------
-- Files that are prepared
-----------------------------------------------------------------------------------------

/-- A file that is prepared has the outcome of its prepared form, unless this cannot be written. -/
theorem process_eq_made_or (isSource : preparation.config.IsSource source names)
    : (process preparation source workspace).1
          = (made none (preparation.prepared workspace.disk source)).1
        ∨ ∃ cause, (process preparation source workspace).1 = .failed (.file cause) := by
  unfold process Preparation.run
  rw [Preparation.outputPath_of_isSource isSource]
  cases preparation.prepared workspace.disk source with
  | error error => exact Or.inl rfl
  | ok content =>
      dsimp only
      rcases workspace.disk.write (preparation.config.outputDirectory.below names) (.text content)
        with ⟨cause | _, written⟩
      · exact Or.inr ⟨cause, rfl⟩
      · exact Or.inl rfl

/-- Where all prepared forms are written, a file is reused, which takes that cached forms may be, or it has
the outcome of its prepared form.
-/
theorem outcome_of_mem_buildFiles {result : FileOutcome}
    (areSources : ∀ source ∈ sources, ∃ names, preparation.config.IsSource source names)
    (spared : ∀ source ∈ sources, ∀ place, preparation.Reads workspace.disk source place →
      (filesTerritory preparation.config workspace).Spares workspace.disk place)
    (written : ∀ source cause,
      (source, .failed (.file cause)) ∉ (buildFiles preparation reuseAllowed sources workspace).1)
    (isBuilt : (source, result) ∈ (buildFiles preparation reuseAllowed sources workspace).1)
    : (reuseAllowed = true ∧ result = .reused)
        ∨ result = (made none (preparation.prepared workspace.disk source)).1 := by
  have member : source ∈ sources := by
    rw [← map_fst_buildFiles preparation reuseAllowed sources workspace]
    exact List.mem_map_of_mem isBuilt
  obtain ⟨names, isSource⟩ := areSources source member
  -- what is prepared between other files is what was prepared before them
  have processed {between : Workspace}
      (confined : Command.Confined (filesTerritory preparation.config workspace) workspace between)
      (prepares : result = (process preparation source between).1)
      : result = (made none (preparation.prepared workspace.disk source)).1 := by
    have same := Preparation.prepared_of_agree (confined.frame.agree.mono (spared source member))
    rw [← same, prepares]
    refine (process_eq_made_or isSource).resolve_right fun ⟨cause, failed⟩ => ?_
    rw [prepares, failed] at isBuilt
    exact written source cause isBuilt
  obtain ⟨earlier, later, rfl, same, -⟩ := exists_turn isBuilt
  have confined := (confined_buildFiles reuseAllowed workspace fun other member =>
    areSources other (List.mem_append_left _ member)).mono
      (sourcesWithinFiles preparation.config earlier workspace)
  generalize (buildFiles preparation reuseAllowed earlier workspace).2 = between at confined same
  rcases buildFile_cases preparation reuseAllowed source between with
    ⟨restored, allowed, -, -, built⟩ | ⟨restored, failed, built⟩ | built
  · exact Or.inl ⟨allowed, same.symm.trans (congrArg Prod.fst built)⟩
  · have restoring := (confined_restore between
      (FeatureCache.cachedPath preparation.config source) isSource).mono
        ((withinOutput ..).trans (fileWithinFiles isSource.2 preparation.config between))
    rw [failed, stable_filesTerritory preparation.config _ _ _ confined] at restoring
    exact Or.inr (processed (confined.trans restoring) (same.symm.trans (congrArg Prod.fst built)))
  · exact Or.inr (processed confined (same.symm.trans (congrArg Prod.fst built)))

/-- What is shown of a file that was prepared is what was made of it. -/
theorem Shows.eq_made {prepared : Except PrepareError Text} {disk : Disk}
    (shows : Shows config prepared disk names (made none prepared).1)
    : disk.content? (config.outputDirectory.place disk.current ++ names) = (made none prepared).2 := by
  cases prepared with
  | error error => exact shows
  | ok content =>
      obtain ⟨text, same, stands⟩ := shows
      obtain rfl := Except.ok.inj same
      exact stands

-----------------------------------------------------------------------------------------
-- Projects that are isolated
-----------------------------------------------------------------------------------------

/-- A project whose generated trees and documents are kept apart from each other, where changes within some
bounds leave alone what it is made of: the features and the step-group documents with the ways to them,
and all that preparing a listed feature reads. The catalogue is not reached through the output tree.
-/
structure Isolated (config : Config) (value : Text → Text) (bounds : Disk.Territory) (workspace : Workspace)
    : Prop where
  apart : config.Apart workspace
  documents : (documentPaths config workspace).Pairwise fun path other =>
    path.place workspace.disk.current ≠ other.place workspace.disk.current
  way : ∀ place ∈ config.stepGroups.catalog.visited workspace.disk.current,
    ¬ config.outputDirectory.place workspace.disk.current <+: place
  features : bounds.SparesBelow workspace.disk config.featuresDirectory
  stepGroups : bounds.SparesBelow workspace.disk config.stepGroups.sourceDirectory
  inputs : ∀ found,
    workspace.disk.featureFiles config.featuresDirectory [config.stepGroups.sourceDirectory] = .ok found →
      ∀ source ∈ found, ∀ place, Reads config value workspace.disk source place →
        bounds.Spares workspace.disk place

namespace Isolated

/-- The step-group documents are well-formed as before. -/
theorem documentsExtract (isolated : Isolated config value bounds before) (tree : before.disk.IsTree)
    (confined : Command.Confined bounds before after)
    (extract : Refresh.DocumentsExtract config.stepGroups before.disk)
    : Refresh.DocumentsExtract config.stepGroups after.disk := by
  intro paths listed path member
  rw [confined.frame.featureFiles_of_sparesBelow tree isolated.stepGroups] at listed
  rw [confined.frame.read_of_sparesBelow tree isolated.stepGroups listed member]
  exact extract paths listed path member

/-- The step-group documents declare the same groups as before. -/
theorem declared (isolated : Isolated config value bounds before) (tree : before.disk.IsTree)
    (confined : Command.Confined bounds before after) {documents others : List Refresh.Source}
    (listed : Refresh.sources config.stepGroups before.disk = .ok documents)
    (listedLater : Refresh.sources config.stepGroups after.disk = .ok others)
    : Refresh.declared after.disk others = Refresh.declared before.disk documents := by
  have frame := confined.frame
  refine Refresh.declared_congr listed listedLater
    (frame.featureFiles_of_sparesBelow tree isolated.stepGroups _) fun source member => ?_
  exact frame.read_of_sparesBelow tree isolated.stepGroups (Refresh.featureFiles_of_sources listed)
    (List.mem_map_of_mem member)

/-- A listed feature is prepared as before. -/
theorem prepared (isolated : Isolated config value bounds before)
    (confined : Command.Confined bounds before after) (catalog : Catalog)
    (listed : before.disk.featureFiles config.featuresDirectory [config.stepGroups.sourceDirectory]
      = .ok found)
    (member : source ∈ found)
    : preparedUnder config value catalog after.disk source
        = preparedUnder config value catalog before.disk source :=
  preparedUnder_of_agree catalog (confined.frame.agree.mono (isolated.inputs found listed source member))

/-- A project stays isolated over changes within the bounds. -/
theorem of_confined (isolated : Isolated config value bounds before) (tree : before.disk.IsTree)
    (confined : Command.Confined bounds before after)
    : Isolated config value bounds after := by
  have frame := confined.frame
  refine ⟨apart_of_confined isolated.apart confined, ?_, ?_, frame.sparesBelow_kept isolated.features,
    frame.sparesBelow_kept isolated.stepGroups, fun found listed source member place reads => ?_⟩
  · rw [documentPaths_of_confined confined, frame.current]
    exact isolated.documents
  · rw [frame.current]
    exact isolated.way
  · rw [frame.featureFiles_of_sparesBelow tree isolated.features] at listed
    have spared := isolated.inputs found listed source member
    rw [reads_of_agree (frame.agree.mono spared)] at reads
    exact frame.spares_kept (spared place reads)

/-- Bounds may be widened where they change and make the same. -/
theorem widen {larger : Disk.Territory} (isolated : Isolated config value bounds before)
    (changes : ∀ place, larger.Changes place → bounds.Changes place)
    (makes : ∀ place, larger.makes place → bounds.makes place)
    : Isolated config value larger before := by
  have spares {place : Location} (spared : bounds.Spares before.disk place) : larger.Spares before.disk place :=
    ⟨fun changed => spared.1 (changes place changed), fun made => spared.2 (makes place made)⟩
  have sparesBelow {root : Path} (spared : bounds.SparesBelow before.disk root)
      : larger.SparesBelow before.disk root := by
    refine spared.imp (fun ⟨down, beside⟩ => ⟨down, ?_, ?_⟩) fun each place inside => spares (each place inside)
    · exact fun upper above changed => beside.clears upper above (changes upper changed)
    · exact fun lower below => ⟨fun changed => (beside.below lower below).1 (changes lower changed),
        fun made => (beside.below lower below).2 (makes lower made)⟩
  exact ⟨isolated.apart, isolated.documents, isolated.way, sparesBelow isolated.features,
    sparesBelow isolated.stepGroups, fun found listed source member place reads =>
      spares (isolated.inputs found listed source member place reads)⟩

/-- Narrower bounds leave alone as much. -/
theorem of_within {smaller : Disk.Territory} (isolated : Isolated config value bounds before)
    (within : smaller.Within bounds)
    : Isolated config value smaller before :=
  isolated.widen (fun place => Or.imp (within.removes place) (within.writes place)) within.makes

/-- The artifacts and the record of times have places of their own, where no step-group document is. -/
theorem placed (isolated : Isolated config value (territory config before) before)
    : Refresh.Placed config.stepGroups before := by
  refine placed_of_distinct isolated.documents fun path isDocument below => ?_
  exact isolated.stepGroups.not_changes below
    (changes_territory_iff.mpr (Or.inr (Or.inr ⟨path, isDocument, rfl⟩)))

/-- A sound project is left alone by a build. -/
theorem of_sound (sound : Sound config value found before)
    (listed : before.disk.featureFiles config.featuresDirectory [config.stepGroups.sourceDirectory]
      = .ok found)
    : Isolated config value (territory config before) before where
  apart := sound.disjoint.apart
  documents := sound.disjoint.documents.imp Location.Apart.ne
  way := fun place visited below => by
    have isDocument := catalog_mem_documentPaths config before
    have above := (sound.disjoint.down_document isDocument).prefix_of_mem_visited visited
    exact (sound.disjoint.output_document isDocument).1 (below.trans above)
  features := Or.inl ⟨sound.disjoint.down _ (by simp), beside_authored sound.disjoint (Or.inl rfl)⟩
  stepGroups := Or.inl ⟨sound.disjoint.down _ (by simp), beside_authored sound.disjoint (Or.inr rfl)⟩
  inputs := fun others listedOthers => by
    obtain rfl := Except.ok.inj (listed.symm.trans listedOthers)
    exact sound.spared

/-- The files that a build of an isolated project lists are those that stood before it. -/
theorem listed (isolated : Isolated config value (territory config before) before)
    (tree : before.disk.IsTree) (got : ready config force before = .ok (refresh, found) created)
    : before.disk.featureFiles config.featuresDirectory [config.stepGroups.sourceDirectory] = .ok found := by
  obtain ⟨refreshed, -, -, ran, listing, -⟩ := ready_eq_ok got
  have refreshing := ((Refresh.confined_run config.stepGroups force before).ofOk ran).mono
    ((refreshWithinReady config before).trans (readyWithinBuild config before))
  rwa [refreshing.frame.featureFiles_of_sparesBelow tree isolated.features] at listing

/-- Building files leaves both artifacts. -/
theorem artifact_kept (isolated : Isolated config value bounds created)
    (building : Command.Confined (sourcesTerritory config found created) created after)
    (isArtifact : path ∈ [config.stepGroups.catalog, config.stepGroups.bindings])
    : after.disk.content? (path.place after.disk.current)
        = created.disk.content? (path.place created.disk.current) := by
  have distinct := (List.pairwise_append.mp isolated.documents).2.2
  rw [building.frame.current]
  refine building.frame.content?_kept (outside_of_document isolated.apart ?_ fun record isRecord => ?_)
  · exact List.mem_append_left _ (List.mem_append_left _ isArtifact)
  · exact (distinct path (List.mem_append_left _ isArtifact) record (by simp [isRecord])).symm

end Isolated

-----------------------------------------------------------------------------------------
-- Builds in which no operation on the disk fails
-----------------------------------------------------------------------------------------

/-- A build in which no operation on the disk fails. -/
structure Unhindered (result : EStateM.Result CommandError Workspace BuildOutcome) : Prop where
  succeeds : Command.Unhindered result
  files : ∀ outcome after, result = .ok outcome after →
    ∀ source cause, (source, .failed (.file cause)) ∉ outcome.files

theorem Unhindered.of_files {result : EStateM.Result CommandError Workspace BuildOutcome}
    {files : List (Path × FileOutcome)}
    (made : (Command.value? result).map BuildOutcome.files = some files)
    (plain : ∀ source cause, (source, .failed (.file cause)) ∉ files)
    : Unhindered result := by
  obtain ⟨outcome, found, rfl⟩ := Option.map_eq_some_iff.mp made
  refine ⟨Command.unhindered_of_value? found, fun other after ran => ?_⟩
  obtain rfl : other = outcome := by simpa [ran, Command.value?] using found
  exact plain

/-- A build of well-formed documents by a valid configuration fails for errors of the disk only. -/
theorem isOfDisk_of_run_error {error : CommandError} (valid : config.validate = .ok ())
    (extract : Refresh.DocumentsExtract config.stepGroups before.disk)
    (failed : run config value force before = .error error after)
    : error.IsOfDisk := by
  have notReady : ready config force before = .error error after := by
    rw [run_eq] at failed
    split at failed
    · next stopped =>
        rw [stopped]
        simpa using failed
    · simp at failed
  clear failed
  unfold ready at notReady
  rcases Command.bind_eq_error notReady with failed | ⟨_, start, checked, refreshing⟩
  · obtain ⟨-, cause, invalid, -⟩ := Command.require_eq_error failed
    simp [valid] at invalid
  obtain ⟨-, rfl⟩ := Command.require_eq_ok checked
  rcases Command.bind_eq_error refreshing with failed | ⟨refresh, refreshed, -, listing⟩
  · exact Refresh.isOfDisk_of_run_error extract failed
  rcases Command.bind_eq_error listing with failed | ⟨found, same, -, resetting⟩
  · obtain ⟨-, cause, -, rfl⟩ := Command.look_eq_error failed
    trivial
  rcases Command.bind_eq_error resetting with failed | ⟨_, reset, -, returned⟩
  · unfold resetOutput at failed
    rcases Command.bind_eq_error failed with failed | ⟨_, emptied, -, failed⟩
    · obtain ⟨cause, -, -, rfl, -⟩ := Command.change_eq_error failed
      trivial
    · obtain ⟨cause, -, -, rfl, -⟩ := Command.change_eq_error failed
      trivial
  · cases returned

/-- The files are prepared under the catalogue that getting ready has left. -/
theorem preparationOn_of_ready (got : ready config force before = .ok (refresh, found) created)
    : preparationOn created.disk config value = ⟨config, catalogOf config force before, value⟩ := by
  rw [preparationOn, catalogOf, got, Command.left_ok]

/-- A build of an isolated project that has listed the files which stood before and has built them, where no
file could not be written. Building some of the files leaves alone what preparing the others reads, and
this is prepared to the same as before.
-/
structure Performed (config : Config) (value : Text → Text) (force : Bool) (before : Workspace)
    (found : List Path) (created : Workspace) (outcome : BuildOutcome) (after : Workspace)
    : Prop where
  tree : before.disk.IsTree
  apart : config.Apart before
  direct : before.disk.Direct config.outputDirectory
  got : ready config force before = .ok (outcome.refresh, found) created
  built : buildFiles (preparationOn created.disk config value) (allowsReuse config force outcome.refresh)
    found created = (outcome.files, after)
  listed :
    before.disk.featureFiles config.featuresDirectory [config.stepGroups.sourceDirectory] = .ok found
  spared : ∀ source ∈ found, ∀ place, Reads config value created.disk source place →
    (filesTerritory config created).Spares created.disk place
  prepared : ∀ source ∈ found, ∀ catalog, preparedUnder config value catalog created.disk source
    = preparedUnder config value catalog before.disk source
  written : ∀ source cause, (source, .failed (.file cause)) ∉ outcome.files

/-- A build of an isolated project in which no operation on the disk fails, with well-formed documents and a
valid configuration.
-/
theorem Isolated.exists_performed (isolated : Isolated config value (territory config before) before)
    (valid : config.validate = .ok ()) (tree : before.disk.IsTree)
    (direct : before.disk.Direct config.outputDirectory)
    (extract : Refresh.DocumentsExtract config.stepGroups before.disk)
    (unhindered : Unhindered (run config value force before))
    : ∃ outcome after found created, run config value force before = .ok outcome after
        ∧ Performed config value force before found created outcome after := by
  cases ran : run config value force before with
  | error error after =>
      exact absurd (isOfDisk_of_run_error valid extract ran) (unhindered.succeeds error after ran)
  | ok outcome after =>
  obtain ⟨found, created, got, built⟩ := run_eq_ok ran
  have listed := isolated.listed tree got
  have readying := (confined_ready config force before).ofOk got
  have getting := readying.mono (readyWithinBuild config before)
  refine ⟨outcome, after, found, created, rfl, tree, isolated.apart, direct, got, built, listed,
    fun source member place reads => ?_, fun source member catalog =>
      isolated.prepared getting catalog listed member, unhindered.files outcome after ran⟩
  have sparedBefore := isolated.inputs found listed source member
  rw [reads_of_agree (getting.frame.agree.mono sparedBefore)] at reads
  refine (Disk.Territory.Within.spares ?_) (getting.frame.spares_kept (sparedBefore place reads))
  rw [stable_filesTerritory config _ _ _ readying]
  exact filesWithinBuild config before

/-- The outcome of a file of a build that has reused some files and prepared the others. -/
def outcomeOf (reused : List Path) (prepared : Path → Except PrepareError Text) (source : Path)
    : FileOutcome :=
  if source ∈ reused then .reused else (made none (prepared source)).1

theorem made_none_ne_reused {prepared : Except PrepareError Text} : (made none prepared).1 ≠ .reused := by
  cases prepared <;> simp [made]

/-- What a build leaves that has reused some files and prepared the others: the output of a reused file has
the text of its cached form, that of any other is what was made of its prepared form, and nothing else is
in the output tree.
-/
structure PartlyBuilt (config : Config) (prepared : Path → Except PrepareError Text) (found : List Path)
    (before : Disk) (outcome : BuildOutcome) (after : Disk)
    : Prop where
  files : outcome.files = found.map fun source => (source, outcomeOf outcome.reused prepared source)
  reused : ∀ source ∈ outcome.reused, ∀ names, config.IsSource source names → ∃ text,
    before.content? (cachedPlace config source before.current) = some (.text text)
      ∧ after.content? (config.outputDirectory.place after.current ++ names) = some (.text text)
  others : ∀ source ∈ found, source ∉ outcome.reused → ∀ names, config.IsSource source names →
    after.content? (config.outputDirectory.place after.current ++ names)
      = (made none (prepared source)).2
  nothingElse : ∀ names content,
    after.content? (config.outputDirectory.place after.current ++ names) = some content →
      ∃ source ∈ found, config.IsSource source names

theorem PartlyBuilt.mem_found {prepared : Path → Except PrepareError Text} {early late : Disk}
    (built : PartlyBuilt config prepared found early outcome late) (reused : source ∈ outcome.reused)
    : source ∈ found := by
  have isBuilt := mem_reused_iff.mp reused
  rw [built.files] at isBuilt
  obtain ⟨other, member, same⟩ := List.mem_map.mp isBuilt
  exact (Prod.mk.inj same).1 ▸ member

namespace Performed

variable {result : FileOutcome}

theorem once (performed : Performed config value force before found created outcome after) : found.Nodup :=
  (isSource_of_ready performed.tree.proper performed.got).1

theorem areSources (performed : Performed config value force before found created outcome after)
    : ∀ source ∈ found, ∃ names, (preparationOn created.disk config value).config.IsSource source names :=
  (isSource_of_ready performed.tree.proper performed.got).2

theorem apartCreated (performed : Performed config value force before found created outcome after)
    : config.Apart created :=
  apart_of_confined performed.apart ((confined_ready config force before).ofOk performed.got)

theorem fileNames (performed : Performed config value force before found created outcome after)
    : outcome.files.map Prod.fst = found := by
  rw [← map_fst_buildFiles (preparationOn created.disk config value) (allowsReuse config force outcome.refresh)
    found created, performed.built]

theorem building (performed : Performed config value force before found created outcome after)
    : Command.Confined (sourcesTerritory config found created) created after := by
  have confined := confined_buildFiles (allowsReuse config force outcome.refresh) created performed.areSources
  rwa [performed.built] at confined

/-- What the build has prepared a file to. -/
theorem prepared_eq (performed : Performed config value force before found created outcome after)
    (member : source ∈ found)
    : (preparationOn created.disk config value).prepared created.disk source
        = preparedUnder config value (catalogOf config force before) before.disk source := by
  rw [preparationOn_of_ready performed.got]
  exact performed.prepared source member _

/-- A file is reused, which takes that cached forms may be, or it has the outcome of its prepared form. -/
theorem reused_or_made (performed : Performed config value force before found created outcome after)
    (isBuilt : (source, result) ∈ outcome.files)
    : (allowsReuse config force outcome.refresh = true ∧ result = .reused)
        ∨ result = (made none (preparedUnder config value (catalogOf config force before) before.disk
          source)).1 := by
  have member : source ∈ found := performed.fileNames ▸ List.mem_map_of_mem isBuilt
  have files : outcome.files = (buildFiles (preparationOn created.disk config value)
      (allowsReuse config force outcome.refresh) found created).1 := by
    rw [performed.built]
  have written := performed.written
  rw [files] at written isBuilt
  rw [← performed.prepared_eq member]
  exact outcome_of_mem_buildFiles performed.areSources performed.spared written isBuilt

/-- No file is reused where no cached form may be taken. -/
theorem reused_eq_nil (performed : Performed config value force before found created outcome after)
    (refused : allowsReuse config force outcome.refresh = false)
    : outcome.reused = [] := by
  refine List.eq_nil_iff_forall_not_mem.mpr fun source reused => ?_
  rcases performed.reused_or_made (mem_reused_iff.mp reused) with ⟨allowed, -⟩ | same
  · simp [refused] at allowed
  · exact made_none_ne_reused same.symm

theorem outcome_eq (performed : Performed config value force before found created outcome after)
    (isBuilt : (source, result) ∈ outcome.files)
    : result = outcomeOf outcome.reused
        (preparedUnder config value (catalogOf config force before) before.disk) source := by
  unfold outcomeOf
  rcases performed.reused_or_made isBuilt with ⟨-, rfl⟩ | same
  · rw [if_pos (mem_reused_iff.mpr isBuilt)]
  · rw [if_neg, same]
    intro reused
    have once : (outcome.files.map Prod.fst).Nodup := performed.fileNames ▸ performed.once
    exact made_none_ne_reused (same.symm.trans (outcome_unique once isBuilt (mem_reused_iff.mp reused)))

/-- The output of a reused file has the text that its cached form had before the build. -/
theorem output_of_reused (performed : Performed config value force before found created outcome after)
    (reused : source ∈ outcome.reused) (isSource : config.IsSource source names)
    : ∃ text,
        before.disk.content? (cachedPlace config source before.disk.current) = some (.text text)
        ∧ after.disk.content? (config.outputDirectory.place after.disk.current ++ names)
          = some (.text text) := by
  have isBuilt : (source, .reused) ∈ (buildFiles (preparationOn created.disk config value)
      (allowsReuse config force outcome.refresh) found created).1 := by
    rw [performed.built]
    exact mem_reused_iff.mp reused
  obtain ⟨text, form, output⟩ := content?_of_buildFiles_reused performed.once performed.areSources
    performed.apartCreated isSource isBuilt
  have readying := ((confined_ready config force before).ofOk performed.got).frame
  rw [performed.built] at output
  refine ⟨text, ?_, performed.building.frame.current ▸ output⟩
  rw [cachedPlace_of_isSource isSource, ← readying.content?_kept (cached_outside_ready performed.apart),
    ← readying.current]
  exact form

/-- The output of any other file is what was made of its prepared form. -/
theorem output_of_not_reused
    (performed : Performed config value force before found created outcome after) (member : source ∈ found)
    (notReused : source ∉ outcome.reused) (isSource : config.IsSource source names)
    : after.disk.content? (config.outputDirectory.place after.disk.current ++ names)
        = (made none (preparedUnder config value (catalogOf config force before) before.disk source)).2 := by
  obtain ⟨⟨_, result⟩, isBuilt, rfl⟩ := List.mem_map.mp (performed.fileNames ▸ member)
  have same := performed.outcome_eq isBuilt
  unfold outcomeOf at same
  rw [if_neg notReused, ← performed.prepared_eq member] at same
  have files : outcome.files = (buildFiles (preparationOn created.disk config value)
      (allowsReuse config force outcome.refresh) found created).1 := by
    rw [performed.built]
  have shows := shows_buildFiles performed.once performed.areSources performed.apartCreated isSource
    (performed.spared _ member) (content?_of_ready performed.tree performed.apart performed.direct performed.got)
    (files ▸ isBuilt)
  rw [performed.built, same] at shows
  rw [← performed.prepared_eq member]
  exact shows.eq_made

theorem partlyBuilt (performed : Performed config value force before found created outcome after)
    : PartlyBuilt config (preparedUnder config value (catalogOf config force before) before.disk) found
        before.disk outcome after.disk where
  files := by
    have outcomes := eq_map_of_forall performed.outcome_eq
    rwa [performed.fileNames] at outcomes
  reused := fun _ reused _ isSource => performed.output_of_reused reused isSource
  others := fun _ member notReused _ isSource => performed.output_of_not_reused member notReused isSource
  nothingElse := fun _ _ stands =>
    source_of_output performed.tree performed.apart performed.direct performed.got performed.built stands

end Performed

end

end FeaturePress.Build
