import FeaturePress.Project.Run
import FeaturePress.Proofs.Project.Clean
import FeaturePress.Proofs.Project.Isolated

/-! Cleaning and then building. What a build leaves that reads all step-group documents and prepares all
files does not depend on what earlier builds have generated. A forced build is such a build, and so is the
first one after cleaning.
-/

namespace FeaturePress.Build

section

variable {config : Config} {value : Text → Text} {force : Bool} {before after created : Workspace}
  {outcome : BuildOutcome} {refresh : Refresh} {found : List Path} {groups : List StepGroup}

-----------------------------------------------------------------------------------------
-- Builds that read everything
-----------------------------------------------------------------------------------------

/-- A build that reads all step-group documents gets ready with the artifacts of their groups. -/
theorem ready_of_readsAll (isolated : Isolated config value (territory config before) before)
    (readsAll : Refresh.ReadsAll config.stepGroups force groups before)
    (got : ready config force before = .ok (refresh, found) created)
    : refresh.isRegenerated = true
        ∧ catalogOf config force before = Catalog.ofGroups groups
        ∧ created.disk.content? (config.stepGroups.catalog.place created.disk.current)
          = some (.text (Document.write (Catalog.ofGroups groups)))
        ∧ created.disk.content? (config.stepGroups.bindings.place created.disk.current)
          = some (.text (Bindings.file (Catalog.ofGroups groups))) := by
  obtain ⟨refreshed, emptied, -, ran, -, removed, made, -⟩ := ready_eq_ok got
  have refreshing := (Refresh.confined_run config.stepGroups force before).ofOk ran
  have reset : Disk.Frame (resetTerritory config refreshed) refreshed.disk created.disk :=
    frame_reset removed made
  obtain ⟨isRegenerated, catalogReads, bindingsReads⟩ := readsAll.reads_of_run isolated.placed ran
  have catalogCreated : created.disk.read config.stepGroups.catalog
      = .ok (Document.write (Catalog.ofGroups groups)) := by
    refine reset.read_kept catalogReads (Disk.Territory.avoids_of_visited fun place visited changes => ?_)
    have below := below_of_changes_resetTerritory changes
    rw [refreshing.frame.current] at visited below
    exact isolated.way place visited below
  have bindingsOutside : ¬ (resetTerritory config refreshed).Changes
      (config.stepGroups.bindings.place refreshed.disk.current) := by
    intro changes
    have below := below_of_changes_resetTerritory changes
    rw [refreshing.frame.current] at below
    exact (isolated.apart.documents _ (by simp [documentPaths])).1 below
  refine ⟨isRegenerated, ?_, Disk.content?_of_read catalogCreated, ?_⟩
  · rw [catalogOf, got, Command.left_ok, Catalog.loadOrEmpty,
      Document.load_eq_some_iff.mpr ⟨_, catalogCreated, Catalog.readsBack _⟩]
  · rw [reset.current, reset.content?_kept bindingsOutside]
    exact Disk.content?_of_read bindingsReads

/-- What a build leaves that reads all step-group documents and prepares all files: the outcome and the
output of every file are those of its prepared form under the catalogue of the groups, nothing else is in
the output tree, and the artifacts are those of the catalogue.
-/
structure FullyBuilt (config : Config) (value : Text → Text) (groups : List StepGroup) (found : List Path)
    (disk : Disk) (outcome : BuildOutcome) (after : Disk)
    : Prop where
  files : outcome.files = found.map fun source =>
    (source, (made none (preparedUnder config value (Catalog.ofGroups groups) disk source)).1)
  outputs : ∀ source ∈ found, ∀ names, config.IsSource source names →
    after.content? (config.outputDirectory.place after.current ++ names)
      = (made none (preparedUnder config value (Catalog.ofGroups groups) disk source)).2
  nothingElse : ∀ names content,
    after.content? (config.outputDirectory.place after.current ++ names) = some content →
      ∃ source ∈ found, config.IsSource source names
  catalog : after.content? (config.stepGroups.catalog.place after.current)
    = some (.text (Document.write (Catalog.ofGroups groups)))
  bindings : after.content? (config.stepGroups.bindings.place after.current)
    = some (.text (Bindings.file (Catalog.ofGroups groups)))

/-- A build that reads all step-group documents, where these are well-formed and no operation on the disk
fails.
-/
theorem fullyBuilt_of_unhindered (valid : config.validate = .ok ()) (tree : before.disk.IsTree)
    (direct : before.disk.Direct config.outputDirectory)
    (isolated : Isolated config value (territory config before) before)
    (extract : Refresh.DocumentsExtract config.stepGroups before.disk)
    (readsAll : Refresh.ReadsAll config.stepGroups force groups before)
    (unhindered : Unhindered (run config value force before))
    : ∃ outcome after found, run config value force before = .ok outcome after
        ∧ before.disk.featureFiles config.featuresDirectory [config.stepGroups.sourceDirectory] = .ok found
        ∧ (∃ documents, Refresh.sources config.stepGroups before.disk = .ok documents)
        ∧ FullyBuilt config value groups found before.disk outcome after.disk := by
  obtain ⟨outcome, after, found, created, ran, performed⟩ :=
    isolated.exists_performed valid tree direct extract unhindered
  obtain ⟨isRegenerated, declares, catalog, bindings⟩ := ready_of_readsAll isolated readsAll performed.got
  obtain ⟨refreshed, -, -, refreshRan, -⟩ := ready_eq_ok performed.got
  obtain ⟨documents, -, documentsListed, -⟩ := Refresh.run_eq_ok refreshRan
  have getting := ((confined_ready config force before).ofOk performed.got).mono (readyWithinBuild config before)
  have created := isolated.of_confined tree getting
  -- a catalogue that is written anew allows no cached form to be taken
  have noneReused : outcome.reused = [] := performed.reused_eq_nil (by simp [allowsReuse, isRegenerated])
  have built := performed.partlyBuilt
  rw [declares] at built
  refine ⟨outcome, after, found, ran, performed.listed, ⟨documents, documentsListed⟩, ?_, ?_,
    built.nothingElse, ?_, ?_⟩
  · simpa [outcomeOf, noneReused] using built.files
  · exact fun source member => built.others source member (by simp [noneReused])
  · exact (created.artifact_kept performed.building (by simp)).trans catalog
  · exact (created.artifact_kept performed.building (by simp)).trans bindings

/-- The lists of builds are the same where the outcomes of all files are. -/
theorem lists_congr {first second : BuildOutcome} (same : second.files = first.files)
    : second.processed = first.processed ∧ second.reused = first.reused
        ∧ second.failed = first.failed := by
  unfold BuildOutcome.processed BuildOutcome.reused BuildOutcome.failed
  rw [same]
  exact ⟨rfl, rfl, rfl⟩

namespace FullyBuilt

variable {disk early late : Disk} {first second : BuildOutcome}

/-- What the files are prepared to may be taken from another disk. -/
theorem of_prepared {other : Disk} (built : FullyBuilt config value groups found disk outcome late)
    (same : ∀ source ∈ found, preparedUnder config value (Catalog.ofGroups groups) other source
      = preparedUnder config value (Catalog.ofGroups groups) disk source)
    : FullyBuilt config value groups found other outcome late where
  files := built.files.trans (List.map_congr_left fun source member => by rw [same source member])
  outputs := fun source member names isSource => by
    rw [same source member]
    exact built.outputs source member names isSource
  nothingElse := built.nothingElse
  catalog := built.catalog
  bindings := built.bindings

/-- A build that prepares all files reuses none. -/
theorem reused_eq_nil (built : FullyBuilt config value groups found disk outcome late)
    : outcome.reused = [] := by
  unfold BuildOutcome.reused
  rw [built.files, List.map_eq_nil_iff, List.filter_eq_nil_iff]
  intro file member
  obtain ⟨source, -, rfl⟩ := List.mem_map.mp member
  cases preparedUnder config value (Catalog.ofGroups groups) disk source <;> simp [Build.made]

/-- The output tree has what was made of the files and nothing else. -/
theorem outputs_eq (built : FullyBuilt config value groups found disk first early)
    (again : FullyBuilt config value groups found disk second late) (names : List Text)
    : late.content? (config.outputDirectory.place late.current ++ names)
        = early.content? (config.outputDirectory.place early.current ++ names) := by
  by_cases known : ∃ source ∈ found, config.IsSource source names
  · obtain ⟨source, member, isSource⟩ := known
    rw [again.outputs source member names isSource, built.outputs source member names isSource]
  · rw [Option.eq_none_iff_forall_ne_some.mpr fun content stands =>
        known (again.nothingElse names content stands),
      Option.eq_none_iff_forall_ne_some.mpr fun content stands =>
        known (built.nothingElse names content stands)]

end FullyBuilt

-----------------------------------------------------------------------------------------
-- Cleaning first
-----------------------------------------------------------------------------------------

/-- What cleaning changes a build may change too, where both use the same documents. -/
theorem changes_of_clean (stored : before = .ofConfig config before.disk) {place : Location}
    (changes : (Clean.territory config before).Changes place)
    : (territory config before).Changes place := by
  refine changes_territory_iff.mpr ?_
  rcases Clean.changes_territory_iff.mp changes with ⟨path, isTree, below⟩ | ⟨path, isDocument, same⟩
  · obtain rfl | rfl : path = config.outputDirectory ∨ path = config.featureCache.directory := by
      simpa [Clean.directories] using isTree
    · exact Or.inl below
    · exact Or.inr (Or.inl below)
  · refine Or.inr (Or.inr ⟨path, ?_, same⟩)
    obtain rfl | rfl | rfl : path = config.stepGroups.catalog ∨ path = config.stepGroups.provenance
        ∨ path = config.featureCache.metadata := by
      simpa [Clean.documents] using isDocument
    all_goals
      rw [stored]
      simp [documentPaths, Workspace.ofConfig, Store.file?]

/-- A project that a build leaves alone is left alone by cleaning too. -/
theorem Isolated.clean (stored : before = .ofConfig config before.disk)
    (isolated : Isolated config value (territory config before) before)
    : Isolated config value ((Clean.territory config before).union (territory config before)) before := by
  refine isolated.widen (fun place changes => ?_) fun place makes => makes.resolve_left ?_
  · exact (Disk.Territory.changes_union_iff.mp changes).elim (changes_of_clean stored) id
  · exact (Clean.onlyRemoves_territory config before place).2

/-- After cleaning all step-group documents are read, and the artifacts can be replaced as before. -/
theorem readsAll_of_clean {removed : List Path} {documents : List Refresh.Source}
    (ok : Clean.run config before = .ok removed after) (tree : before.disk.IsTree)
    (stored : before = .ofConfig config before.disk)
    (bare : ∀ piece, config.stepGroups.provenance.pieces.getLast? = some piece → Path.isIdle piece = false)
    (isolated : Isolated config value (Clean.territory config before) before)
    (listed : Refresh.sources config.stepGroups before.disk = .ok documents)
    (readsAll : Refresh.ReadsAll config.stepGroups force groups before)
    : Refresh.ReadsAll config.stepGroups false groups after := by
  have confined := (Clean.confined_run config before).ofOk ok
  have onlyRemoves := Clean.onlyRemoves_territory config before
  refine ⟨Or.inr ?_, fun others listedLater => ?_, readsAll.catalog.of_removing confined.frame onlyRemoves,
    readsAll.bindings.of_removing confined.frame onlyRemoves⟩
  · have isFile : after.provenance.file? = some config.stepGroups.provenance := by
      rw [confined.provenance, stored]
      rfl
    rw [Store.eq_file isFile]
    exact Clean.loadUsable_run ok (by simp [Clean.documents]) bare
  · rw [isolated.declared tree confined listed listedLater]
    exact readsAll.declares documents listed

/-- Cleaning and then building gives what a forced build gives at once: the same lists, where nothing is
reused, the same output tree and the same artifacts.
-/
theorem clean_build_eq_forced (valid : config.validate = .ok ()) (tree : before.disk.IsTree)
    (stored : before = .ofConfig config before.disk)
    (isolated : Isolated config value (territory config before) before)
    (direct : ∀ start ∈ [before, Command.left (Clean.run config before)],
      start.disk.Direct config.outputDirectory)
    (bare : ∀ piece, config.stepGroups.provenance.pieces.getLast? = some piece → Path.isIdle piece = false)
    (extract : Refresh.DocumentsExtract config.stepGroups before.disk)
    (catalog : Refresh.Replaceable before.disk config.stepGroups.catalog
      (Document.write (Catalog.ofGroups (Refresh.current config.stepGroups before.disk))))
    (bindings : Refresh.Replaceable before.disk config.stepGroups.bindings
      (Bindings.file (Catalog.ofGroups (Refresh.current config.stepGroups before.disk))))
    (cleans : Command.Unhindered (Clean.run config before))
    (forces : Unhindered (run config value true before))
    (builds : Unhindered (run config value false (Command.left (Clean.run config before))))
    : ∃ removed cleaned forced forcedAfter rebuilt rebuiltAfter,
        Clean.run config before = .ok removed cleaned
        ∧ run config value true before = .ok forced forcedAfter
        ∧ run config value false cleaned = .ok rebuilt rebuiltAfter
        ∧ rebuilt.processed = forced.processed ∧ rebuilt.reused = [] ∧ forced.reused = []
        ∧ rebuilt.failed = forced.failed
        ∧ (∀ names,
          rebuiltAfter.disk.content? (config.outputDirectory.place rebuiltAfter.disk.current ++ names)
            = forcedAfter.disk.content? (config.outputDirectory.place forcedAfter.disk.current ++ names))
        ∧ ∃ catalog, ∀ after ∈ [forcedAfter, rebuiltAfter],
          after.disk.content? (config.stepGroups.catalog.place after.disk.current)
              = some (.text (Document.write catalog))
            ∧ after.disk.content? (config.stepGroups.bindings.place after.disk.current)
              = some (.text (Bindings.file catalog)) := by
  obtain ⟨removed, cleaned, cleaning⟩ := Clean.exists_of_unhindered valid cleans
  rw [cleaning, Command.left_ok] at direct builds
  have isolated := isolated.clean stored
  generalize hgroups : Refresh.current config.stepGroups before.disk = groups at catalog bindings
  have readsAll : Refresh.ReadsAll config.stepGroups true groups before := by
    refine ⟨Or.inl rfl, fun documents listed => ?_, catalog, bindings⟩
    rw [← hgroups, Refresh.current, listed]
  obtain ⟨forced, forcedAfter, found, forcing, listed, ⟨documents, documentsListed⟩, built⟩ :=
    fullyBuilt_of_unhindered valid tree (direct before (by simp))
      (isolated.of_within (Disk.Territory.within_union_right _ _)) extract readsAll forces
  -- cleaning leaves the features and the step-group documents alone
  have cleanWithin := Disk.Territory.within_union_left (Clean.territory config before)
    (territory config before)
  have confined := ((Clean.confined_run config before).ofOk cleaning).mono cleanWithin
  have within : (territory config cleaned).Within
      ((Clean.territory config before).union (territory config before)) := by
    rw [stable_territory config _ _ _ confined]
    exact Disk.Territory.within_union_right _ _
  have readsAllCleaned := readsAll_of_clean cleaning tree stored bare (isolated.of_within cleanWithin)
    documentsListed readsAll
  obtain ⟨rebuilt, rebuiltAfter, others, rebuilding, othersListed, -, again⟩ :=
    fullyBuilt_of_unhindered valid (Clean.isTree_run tree cleaning) (direct cleaned (by simp))
      ((isolated.of_confined tree confined).of_within within) (isolated.documentsExtract tree confined extract)
      readsAllCleaned builds
  -- so the same files are listed and prepared alike
  obtain rfl : found = others := by
    rw [confined.frame.featureFiles_of_sparesBelow tree isolated.features, listed] at othersListed
    exact Except.ok.inj othersListed
  have built : FullyBuilt config value groups found cleaned.disk forced forcedAfter.disk :=
    built.of_prepared fun source member => isolated.prepared confined _ listed member
  obtain ⟨processed, -, failed⟩ := lists_congr (again.files.trans built.files.symm)
  refine ⟨removed, cleaned, forced, forcedAfter, rebuilt, rebuiltAfter, cleaning, forcing, rebuilding,
    processed, again.reused_eq_nil, built.reused_eq_nil, failed, built.outputs_eq again,
    Catalog.ofGroups groups, ?_⟩
  intro after isAfter
  obtain rfl | rfl : after = forcedAfter ∨ after = rebuiltAfter := by simpa using isAfter
  · exact ⟨built.catalog, built.bindings⟩
  · exact ⟨again.catalog, again.bindings⟩

end

-----------------------------------------------------------------------------------------
-- Leftovers of earlier builds
-----------------------------------------------------------------------------------------

namespace Example

/-- The example with leftovers: an unusable catalogue and record, an old output and an old cached form. -/
def littered : Workspace :=
  .ofConfig config ([([['o']], directory), ([['o'], "b.feature".toList], file "Feature:B" 5),
    ([['k']], directory), ([['k'], "c.feature".toList], file "Feature:C" 5), ([['c']], file "?" 5),
    ([['p']], file "?" 5)].foldl (fun disk (place, entry) => disk.put place entry) unbuilt.disk)

theorem sound_littered : Sound config id [source] littered :=
  .of_stands (by decide +kernel) (disjoint.of_sublist rfl (by decide)) (by decide +kernel)
    (spares_of_inputs (by decide +kernel))

/-- The group that the document of the example declares. -/
def group : StepGroup := ⟨"a.sg".toList, ['x'], []⟩

end Example

set_option maxRecDepth 100000 in
/-- Witness: the example with leftovers. -/
theorem clean_build_eq_forced_littered
    : ∃ removed cleaned forced forcedAfter rebuilt rebuiltAfter,
        Clean.run Example.config Example.littered = .ok removed cleaned
        ∧ run Example.config id true Example.littered = .ok forced forcedAfter
        ∧ run Example.config id false cleaned = .ok rebuilt rebuiltAfter
        ∧ forced.processed = [Example.source] ∧ rebuilt.processed = forced.processed ∧ rebuilt.reused = [] ∧ forced.reused = []
        ∧ rebuilt.failed = forced.failed
        ∧ (∀ names,
          rebuiltAfter.disk.content? (Example.config.outputDirectory.place rebuiltAfter.disk.current ++ names)
            = forcedAfter.disk.content?
              (Example.config.outputDirectory.place forcedAfter.disk.current ++ names))
        ∧ ∃ catalog, ∀ after ∈ [forcedAfter, rebuiltAfter],
          after.disk.content? (Example.config.stepGroups.catalog.place after.disk.current)
              = some (.text (Document.write catalog))
            ∧ after.disk.content? (Example.config.stepGroups.bindings.place after.disk.current)
              = some (.text (Bindings.file catalog)) := by
  have listed : Example.littered.disk.featureFiles Example.config.featuresDirectory
      [Example.config.stepGroups.sourceDirectory] = .ok [Example.source] := by
    decide +kernel
  have documents : Example.littered.disk.featureFiles Example.config.stepGroups.sourceDirectory []
      = .ok [.of "g/a.feature"] := by
    decide +kernel
  have groups : Refresh.current Example.config.stepGroups Example.littered.disk = [Example.group] := by
    decide +kernel
  have stood : Example.littered.disk.entry? (Example.config.stepGroups.catalog.place
      Example.littered.disk.current) = some (Example.file "?" 5) := by
    decide +kernel
  have direct : ∀ start ∈ [Example.littered, Command.left (Clean.run Example.config Example.littered)],
      start.disk.Direct Example.config.outputDirectory := by
    decide +kernel
  have cleans : ∃ removed, Command.value? (Clean.run Example.config Example.littered) = some removed :=
    Option.isSome_iff_exists.mp (by decide +kernel)
  have forces : (Command.value? (run Example.config id true Example.littered)).map BuildOutcome.files
      = some [(Example.source, .processed)] := by
    decide +kernel
  have builds : (Command.value? (run Example.config id false
      (Command.left (Clean.run Example.config Example.littered)))).map BuildOutcome.files
      = some [(Example.source, .processed)] := by
    decide +kernel
  have bare (piece : Text) (last : Example.config.stepGroups.provenance.pieces.getLast? = some piece)
      : Path.isIdle piece = false := by
    have ends : Example.config.stepGroups.provenance.pieces.getLast? = some ['p'] := by decide
    obtain rfl := Option.some.inj (ends.symm.trans last)
    decide
  have extract : Refresh.DocumentsExtract Example.config.stepGroups Example.littered.disk := by
    intro paths met path member
    obtain rfl := Except.ok.inj (documents.symm.trans met)
    obtain rfl := List.mem_singleton.mp member
    exact ⟨"@StepGroup:a @StepGroup\nExample:x".toList, [Example.group], by decide +kernel, by decide +kernel⟩
  obtain ⟨removed, cleans⟩ := cleans
  obtain ⟨removed, cleaned, forced, forcedAfter, rebuilt, rebuiltAfter, cleaning, forcing, rebuilding, same⟩ :=
    clean_build_eq_forced (by decide) Example.sound_littered.tree rfl
      (.of_sound Example.sound_littered listed) direct bare extract
      (groups ▸ Refresh.replaceable_of_text stood rfl rfl (by decide +kernel))
      (groups ▸ Refresh.replaceable_of_vacant (by decide +kernel)) (Command.unhindered_of_value? cleans)
      (.of_files forces (by simp)) (.of_files builds (by simp))
  have files : forced.files = [(Example.source, .processed)] := by
    simpa [forcing, Command.value?] using forces
  exact ⟨removed, cleaned, forced, forcedAfter, rebuilt, rebuiltAfter, cleaning, forcing, rebuilding,
    by simp [BuildOutcome.processed, files], same⟩

namespace Example

/-- A forced build. -/
def forced (config : Config) (before : Workspace) : EStateM.Result CommandError Workspace BuildOutcome :=
  run config id true before

/-- A build after cleaning. -/
def rebuilt (config : Config) (before : Workspace) : EStateM.Result CommandError Workspace BuildOutcome :=
  run config id false (Command.left (Clean.run config before))

/-- A configuration whose features are reached through the directory of the cache. -/
def throughCache : Config :=
  { config with featuresDirectory := .of "k/../f" }

/-- The example with a directory for cached forms. -/
def cached : Workspace :=
  .ofConfig throughCache (unbuilt.disk.put [['k']] directory)

/-- A configuration whose catalogue and record have paths that end in a slash. -/
def slashed : Config :=
  { config with stepGroups := ⟨.of "g", .of "c/", .of "p/", .of "b"⟩ }

/-- The example after a build, where a catalogue without groups has the time of the one that was built. -/
def outdated : Workspace :=
  let built := Command.left (run slashed id false (.ofConfig slashed unbuilt.disk))
  match built.disk.entry? [['c']] with
  | some entry =>
      { built with disk := built.disk.put [['c']] { entry with kind := .file (.text "\x7b\x7d".toList) } }
  | none => built

/-- A configuration whose output directory is reached through that of the cache and that of the catalogue. -/
def across : Config :=
  { config with
    outputDirectory := .of "k/../y/../o"
    stepGroups := ⟨.of "g", .of "y/c", .of "p", .of "b"⟩ }

/-- The example with leftovers, where the directory of the catalogue is missing. -/
def hidden : Workspace :=
  .ofConfig across littered.disk

end Example

set_option maxRecDepth 100000 in
/-- Counterexample: where the features are reached through the directory of the cache, which cleaning removes,
the next build does not list them. Cleaning skips a catalogue and a record whose paths end in a slash, so
the next build takes the step groups for fresh. And where the way to the output directory leads through
that of the cache and a missing one, the old outputs are not found.
-/
theorem clean_build_ne_forced
    : (∀ project ∈ [(Example.throughCache, Example.cached), (Example.slashed, Example.outdated),
          (Example.across, Example.hidden)],
        (project.1.featuresDirectory :: project.1.stepGroups.sourceDirectory
          :: generatedPaths project.1 project.2).Pairwise fun path other =>
            (path.place []).Apart (other.place []))
      ∧ ((Command.value? (Example.forced Example.throughCache Example.cached)).map BuildOutcome.processed
          = some [.of "k/../f/c.feature"]
        ∧ (Command.value? (Example.rebuilt Example.throughCache Example.cached)).map BuildOutcome.processed
          = some [])
      ∧ ((Command.value? (Example.forced Example.slashed Example.outdated)).map BuildOutcome.processed
          = some [Example.source]
        ∧ (Command.left (Example.forced Example.slashed Example.outdated)).disk.content? [['c']]
          = some (.text (Document.write (Catalog.ofGroups [Example.group])))
        ∧ (Command.value? (Example.rebuilt Example.slashed Example.outdated)).map BuildOutcome.processed
          = some [Example.source]
        ∧ (Command.left (Example.rebuilt Example.slashed Example.outdated)).disk.content? [['c']]
          = some (.text "\x7b\x7d".toList))
      ∧ (Command.value? (Example.forced Example.across Example.hidden)).map BuildOutcome.processed
          = some [Example.source]
        ∧ (Command.left (Example.forced Example.across Example.hidden)).disk.content?
          [['o'], "b.feature".toList] = none
        ∧ (Command.value? (Example.rebuilt Example.across Example.hidden)).map BuildOutcome.processed
          = some [Example.source]
        ∧ (Command.left (Example.rebuilt Example.across Example.hidden)).disk.content?
          [['o'], "b.feature".toList] = some (.text "Feature:B".toList) := by
  decide +kernel

end FeaturePress.Build
