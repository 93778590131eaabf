import FeaturePress.Proofs.Project.CachedForms

/-! What a reused file shows after any history of builds, refreshes and edits of the step groups: the
text that its source is prepared to under the catalogue of the build that has made its cached form.
A refresh alone brings the catalogue up to date but leaves the cached forms, so this may be an older
catalogue than the one that is stored.
-/

namespace FeaturePress

/-- The configuration with the cache enabled or disabled. -/
def Config.caching (config : Config) (enabled : Bool) : Config :=
  { config with featureCache := { config.featureCache with enabled } }

namespace Build

section

variable {config : Config} {value : Text → Text} {source : Path} {names : List Text}
  {force enabled : Bool} {start before after workspace : Workspace} {outcome : BuildOutcome}
  {maker : Option Catalog}

-----------------------------------------------------------------------------------------
-- Histories
-----------------------------------------------------------------------------------------

/-- The place of the cached form of a source. -/
def cachedPlace (config : Config) (source : Path) (start : Location) : Location :=
  (FeatureCache.cachedPath config source).place start

/-- The catalogue under which a build prepares its files. -/
def catalogOf (config : Config) (force : Bool) (before : Workspace) : Catalog :=
  Catalog.loadOrEmpty (Command.left (ready config force before)).disk config.stepGroups.catalog

/-- The text that a source is prepared to on a disk under a catalogue. -/
def preparedUnder (config : Config) (value : Text → Text) (catalog : Catalog) (disk : Disk)
    (source : Path)
    : Except PrepareError Text :=
  (Preparation.mk config catalog value).prepared disk source

/-- The places on the ways to what preparing a source reads, whatever the catalogue. -/
def Reads (config : Config) (value : Text → Text) (disk : Disk) (source : Path) : Location → Prop :=
  (Preparation.mk config SortedMap.empty value).Reads disk source

/-- A build spares the ways to what preparing a source reads if they stand outside the generated trees. -/
theorem spares_of_inputs
    (outside : ∀ place ∈ ((Preparation.mk config SortedMap.empty value).inputs workspace.disk source).flatMap
        (·.visited workspace.disk.current),
      ¬ config.outputDirectory.place workspace.disk.current <+: place
        ∧ ¬ config.featureCache.directory.place workspace.disk.current <+: place
        ∧ (∀ path ∈ documentPaths config workspace, place ≠ path.place workspace.disk.current)
        ∧ workspace.disk.entry? place ≠ none)
    (place : Location) (reads : Reads config value workspace.disk source place)
    : (territory config workspace).Spares workspace.disk place := by
  obtain ⟨path, isInput, visited⟩ := reads
  obtain ⟨output, cache, documents, stands⟩ := outside place (List.mem_flatMap.mpr ⟨path, isInput, visited⟩)
  exact spares_of_outside output cache documents stands

/-- The catalogue of the build that has made the cached form of a source, after one more build: its
own when the cached form is another than before.
-/
def makerAfter (config : Config) (source : Path) (force : Bool) (before after : Workspace)
    (maker : Option Catalog)
    : Option Catalog :=
  if after.disk.entry? (cachedPlace config source before.disk.current)
      = before.disk.entry? (cachedPlace config source before.disk.current)
    then maker
    else some (catalogOf config force before)

/-- The workspaces that builds, refreshes and edits lead to from a start, with the catalogue of the
build that has made the cached form of a source. Edits leave alone what preparing the source reads
and the cached form.
-/
inductive History (config : Config) (value : Text → Text) (source : Path) (start : Workspace)
    : Workspace → Option Catalog → Prop where
  | start : History config value source start start none
  | edit {before : Workspace} {maker : Option Catalog} {disk : Disk}
      (history : History config value source start before maker) (proper : disk.Proper)
      (inputs : Disk.Agree (Reads config value before.disk source) before.disk disk)
      (cached : disk.entry? (cachedPlace config source before.disk.current)
        = before.disk.entry? (cachedPlace config source before.disk.current))
      : History config value source start { before with disk } maker
  | refresh {before : Workspace} {maker : Option Catalog} (force : Bool)
      (history : History config value source start before maker)
      : History config value source start
          (Command.left (Refresh.run config.stepGroups force before)) maker
  | build {before after : Workspace} {maker : Option Catalog} {enabled force : Bool}
      {outcome : BuildOutcome} (history : History config value source start before maker)
      (ran : run (config.caching enabled) value force before = .ok outcome after)
      : History config value source start after (makerAfter config source force before after maker)
  | failed {before after : Workspace} {maker : Option Catalog} {enabled force : Bool}
      {error : CommandError} (history : History config value source start before maker)
      (ran : run (config.caching enabled) value force before = .error error after)
      : History config value source start after maker

-----------------------------------------------------------------------------------------
-- What every step keeps
-----------------------------------------------------------------------------------------

/-- The cached form of a source, where there is one, has the text that the source is prepared to under
the catalogue of its maker.
-/
structure Tracked (config : Config) (value : Text → Text) (source : Path) (workspace : Workspace)
    (maker : Option Catalog)
    : Prop where
  proper : workspace.disk.Proper
  apart : config.Apart workspace
  spared : ∀ place, Reads config value workspace.disk source place →
    (territory config workspace).Spares workspace.disk place
  cached : ∀ content,
    workspace.disk.content? (cachedPlace config source workspace.disk.current) = some content →
      ∃ catalog text, maker = some catalog
        ∧ preparedUnder config value catalog workspace.disk source = .ok text
        ∧ content = .text text

theorem preparedUnder_of_agree {left right : Disk} (catalog : Catalog)
    (agree : Disk.Agree (Reads config value left source) left right)
    : preparedUnder config value catalog right source
      = preparedUnder config value catalog left source :=
  Preparation.prepared_of_agree agree

theorem reads_of_agree {left right : Disk} (agree : Disk.Agree (Reads config value left source) left right)
    : Reads config value right source = Reads config value left source :=
  Preparation.reads_of_agree agree

theorem cachedPlace_of_isSource (isSource : config.IsSource source names) (start : Location)
    : cachedPlace config source start = config.featureCache.directory.place start ++ names := by
  rw [cachedPlace, FeatureCache.cachedPath_of_isSource isSource, Path.place_below _ isSource.2]

theorem apart_caching (apart : config.Apart workspace) : (config.caching enabled).Apart workspace :=
  ⟨apart.cacheOutside, apart.outputOutside, apart.documents⟩

/-- A build that spares what preparing a source reads leaves its cached form or makes it of the text that
it prepares.
-/
theorem remade_run (proper : before.disk.Proper) (apart : config.Apart before)
    (isSource : config.IsSource source names)
    (spared : ∀ place, Reads config value before.disk source place →
      (territory config before).Spares before.disk place)
    (ran : run config value force before = .ok outcome after)
    : Remade (preparedUnder config value (catalogOf config force before) before.disk source = .ok ·)
        (cachedPlace config source before.disk.current) before.disk after.disk := by
  obtain ⟨found, created, isReady, built⟩ := run_eq_ok ran
  have first := (confined_ready config force before).ofOk isReady
  have getting := first.mono (readyWithinBuild config before)
  have agree : Disk.Agree (Reads config value before.disk source) before.disk created.disk :=
    getting.frame.agree.mono spared
  have sparedCreated : ∀ place, Reads config value created.disk source place →
      (filesTerritory config created).Spares created.disk place := by
    intro place reads
    rw [reads_of_agree agree] at reads
    rw [stable_filesTerritory config _ _ _ first]
    exact (filesWithinBuild config before).spares (getting.frame.spares_kept (spared place reads))
  have made : Remade ((preparationOn created.disk config value).prepared created.disk source = .ok ·)
      (config.featureCache.directory.place created.disk.current ++ names) created.disk
      (buildFiles (preparationOn created.disk config value)
        (allowsReuse config force outcome.refresh) found created).2.disk :=
    remade_buildFiles _ (isSource_of_ready proper isReady).2 (apart_of_confined apart first) isSource
      sparedCreated
  have samePrepared : (preparationOn created.disk config value).prepared created.disk source
      = preparedUnder config value (catalogOf config force before) before.disk source := by
    rw [← preparedUnder_of_agree _ agree, catalogOf, isReady]
    rfl
  rw [built, samePrepared, first.frame.current] at made
  rw [cachedPlace_of_isSource isSource]
  exact (Remade.ofFrame first.frame (cached_outside_ready apart)).trans made

namespace Tracked

/-- A change within the territory of a build leaves alone what preparing the source reads. -/
theorem agree (tracked : Tracked config value source before maker)
    (confined : Command.Confined (territory config before) before after)
    : Disk.Agree (Reads config value before.disk source) before.disk after.disk :=
  confined.frame.agree.mono tracked.spared

/-- A change within the territory of a build keeps track of the cached form, if this is left as it was
or made of the text that the source is prepared to under the next maker.
-/
theorem step {next : Option Catalog} (tracked : Tracked config value source before maker)
    (confined : Command.Confined (territory config before) before after)
    (proper : after.disk.Proper)
    (cached : ∀ content,
      after.disk.content? (cachedPlace config source before.disk.current) = some content →
        (before.disk.content? (cachedPlace config source before.disk.current) = some content
          ∧ next = maker)
        ∨ ∃ catalog text, next = some catalog
          ∧ preparedUnder config value catalog before.disk source = .ok text
          ∧ content = .text text)
    : Tracked config value source after next := by
  have agree := tracked.agree confined
  refine ⟨proper, apart_of_confined tracked.apart confined, ?_, ?_⟩
  · intro place reads
    rw [reads_of_agree agree] at reads
    rw [stable_territory config _ _ _ confined]
    exact confined.frame.spares_kept (tracked.spared place reads)
  · intro content holds
    rw [confined.frame.current] at holds
    rcases cached content holds with ⟨earlier, same⟩ | ⟨catalog, text, isMaker, prepared, isText⟩
    · obtain ⟨catalog, text, isMaker, prepared, isText⟩ := tracked.cached content earlier
      exact ⟨catalog, text, same.trans isMaker,
        (preparedUnder_of_agree catalog agree).trans prepared, isText⟩
    · exact ⟨catalog, text, isMaker, (preparedUnder_of_agree catalog agree).trans prepared, isText⟩

/-- A change of other files leaves the cached form as it was. -/
theorem step_outside {bounds : Disk.Territory} (tracked : Tracked config value source before maker)
    (confined : Command.Confined bounds before after) (within : bounds.Within (territory config before))
    (proper : after.disk.Proper)
    (outside : ¬ bounds.Changes (cachedPlace config source before.disk.current))
    : Tracked config value source after maker := by
  refine tracked.step (confined.mono within) proper fun content holds => Or.inl ⟨?_, rfl⟩
  rw [← confined.frame.content?_kept outside]
  exact holds

theorem ready (tracked : Tracked config value source before maker)
    (isSource : config.IsSource source names) (force : Bool)
    : Tracked config value source (Command.left (Build.ready config force before)) maker := by
  have confined := confined_ready config force before
  refine tracked.step_outside confined (readyWithinBuild ..)
    (confined.frame.proper tracked.proper (isProper_readyTerritory tracked.proper config)) ?_
  rw [cachedPlace_of_isSource isSource]
  exact cached_outside_ready tracked.apart

theorem refresh (tracked : Tracked config value source before maker)
    (isSource : config.IsSource source names) (force : Bool)
    : Tracked config value source (Command.left (Refresh.run config.stepGroups force before)) maker := by
  have confined := (Refresh.confined_run config.stepGroups force before).mono
    (refreshWithinReady config before)
  refine tracked.step_outside confined (readyWithinBuild ..)
    (confined.frame.proper tracked.proper (isProper_readyTerritory tracked.proper config)) ?_
  rw [cachedPlace_of_isSource isSource]
  exact cached_outside_ready tracked.apart

/-- A build leaves the cached form or makes it of the text that it prepares. -/
theorem remade (tracked : Tracked config value source before maker)
    (isSource : config.IsSource source names)
    (ran : run (config.caching enabled) value force before = .ok outcome after)
    : Command.Confined (territory config before) before after
      ∧ Remade (preparedUnder config value (catalogOf config force before) before.disk source = .ok ·)
          (cachedPlace config source before.disk.current) before.disk after.disk := by
  have confined := confined_run (config.caching enabled) value force before tracked.proper
  have apart : (config.caching enabled).Apart before := apart_caching tracked.apart
  have spared : ∀ place, Reads (config.caching enabled) value before.disk source place →
      (territory (config.caching enabled) before).Spares before.disk place := tracked.spared
  have isCached : (config.caching enabled).IsSource source names := isSource
  have made := remade_run tracked.proper apart isCached spared ran
  rw [ran] at confined
  exact ⟨confined, made⟩

/-- A build keeps track of the cached form. -/
theorem build (tracked : Tracked config value source before maker)
    (isSource : config.IsSource source names)
    (ran : run (config.caching enabled) value force before = .ok outcome after)
    : Tracked config value source after (makerAfter config source force before after maker) := by
  obtain ⟨confined, made⟩ := tracked.remade isSource ran
  refine tracked.step confined (proper_of_run tracked.proper ran) fun content holds => ?_
  unfold makerAfter
  split
  · next same =>
      left
      refine ⟨?_, rfl⟩
      rwa [Disk.content?, same] at holds
  · next differ =>
      right
      obtain ⟨text, prepared, isText⟩ := (made content holds).resolve_left differ
      exact ⟨_, text, rfl, prepared, isText⟩

theorem failed {error : CommandError} (tracked : Tracked config value source before maker)
    (isSource : config.IsSource source names)
    (ran : run (config.caching enabled) value force before = .error error after)
    : Tracked config value source after maker := by
  have confined : Command.Confined (readyTerritory (config.caching enabled) before) before after :=
    confined_run_of_error ran
  refine tracked.step_outside confined (readyWithinBuild ..)
    (confined.frame.proper tracked.proper (isProper_readyTerritory tracked.proper config)) ?_
  rw [cachedPlace_of_isSource isSource]
  exact cached_outside_ready (apart_caching tracked.apart)

/-- An edit that leaves alone what preparing the source reads, and its cached form. -/
theorem edit {disk : Disk} (tracked : Tracked config value source before maker) (proper : disk.Proper)
    (inputs : Disk.Agree (Reads config value before.disk source) before.disk disk)
    (cached : disk.entry? (cachedPlace config source before.disk.current)
      = before.disk.entry? (cachedPlace config source before.disk.current))
    : Tracked config value source { before with disk } maker := by
  have same : disk.current = before.disk.current := inputs.current.symm
  have sameTerritory : territory config { before with disk } = territory config before := by
    unfold territory Refresh.territory filesTerritory
    simp only [same]
  refine ⟨proper, ?_, ?_, ?_⟩
  · obtain ⟨cacheOutside, outputOutside, documents⟩ := tracked.apart
    rw [← same] at cacheOutside outputOutside documents
    exact ⟨cacheOutside, outputOutside, documents⟩
  · intro place reads
    rw [reads_of_agree inputs] at reads
    obtain ⟨outside, present⟩ := tracked.spared place reads
    rw [sameTerritory]
    refine ⟨outside, fun makes vacant => present makes ?_⟩
    have shape := inputs.same place reads
    rw [vacant] at shape
    exact Option.map_eq_none_iff.mp shape
  · intro content holds
    rw [Disk.content?, same, cached] at holds
    obtain ⟨catalog, text, isMaker, prepared, isText⟩ := tracked.cached content holds
    exact ⟨catalog, text, isMaker, (preparedUnder_of_agree catalog inputs).trans prepared, isText⟩

end Tracked

theorem History.proper (history : History config value source start workspace maker)
    (proper : start.disk.Proper)
    : workspace.disk.Proper := by
  induction history with
  | start => exact proper
  | edit _ proper => exact proper
  | refresh force _ ih =>
      exact (Refresh.confined_run config.stepGroups force _).frame.proper ih
        (Refresh.isProper_territory ih config.stepGroups)
  | build _ ran ih => exact proper_of_run ih ran
  | failed _ ran ih =>
      exact (confined_run_of_error ran).frame.proper ih (isProper_readyTerritory ih _)

/-- A history keeps track of the cached form from a workspace where there is none, by induction on the
steps.
-/
theorem History.tracked (history : History config value source start workspace maker)
    (isSource : config.IsSource source names) (proper : start.disk.Proper)
    (apart : config.Apart start)
    (spared : ∀ place, Reads config value start.disk source place →
      (territory config start).Spares start.disk place)
    (uncached : start.disk.content? (cachedPlace config source start.disk.current) = none)
    : Tracked config value source workspace maker := by
  induction history with
  | start => exact ⟨proper, apart, spared, fun content holds => by simp [uncached] at holds⟩
  | edit _ proper inputs cached ih => exact ih.edit proper inputs cached
  | refresh force _ ih => exact ih.refresh isSource force
  | build _ ran ih => exact ih.build isSource ran
  | failed _ ran ih => exact ih.failed isSource ran

-----------------------------------------------------------------------------------------
-- Reused files
-----------------------------------------------------------------------------------------

theorem mem_processed_iff : source ∈ outcome.processed ↔ (source, .processed) ∈ outcome.files := by
  simp [BuildOutcome.processed]

theorem mem_reused_iff : source ∈ outcome.reused ↔ (source, .reused) ∈ outcome.files := by
  simp [BuildOutcome.reused]

/-- The output of a source. -/
def output? (config : Config) (disk : Disk) (source : Path) : Option Content :=
  match (Preparation.mk config SortedMap.empty id).outputPath source with
  | .error _ => none
  | .ok target => disk.content? (target.place disk.current)

theorem output?_of_isSource (isSource : config.IsSource source names) (disk : Disk)
    : output? config disk source
      = disk.content? (config.outputDirectory.place disk.current ++ names) := by
  unfold output?
  rw [Preparation.outputPath_of_isSource isSource]
  dsimp only
  rw [Path.place_below _ isSource.2]

/-- After any history of builds, refreshes and edits of the step groups, a file that a build reuses has
the text that its source is prepared to under the catalogue of the build that has made its cached
form. So it has the text that belongs to the stored catalogue exactly when the source is prepared
alike under both.
-/
theorem reused_eq_prepared_iff (proper : start.disk.Proper) (apart : config.Apart start)
    (spared : ∀ place, Reads config value start.disk source place →
      (territory config start).Spares start.disk place)
    (uncached : start.disk.content? (cachedPlace config source start.disk.current) = none)
    (history : History config value source start before maker)
    (ran : run (config.caching enabled) value force before = .ok outcome after)
    (reused : source ∈ outcome.reused)
    : ∃ catalog text, maker = some catalog
      ∧ preparedUnder config value catalog after.disk source = .ok text
      ∧ output? config after.disk source = some (.text text)
      ∧ ((∃ current, preparedUnder config value
              (Catalog.loadOrEmpty after.disk config.stepGroups.catalog) after.disk source
              = .ok current
            ∧ output? config after.disk source = some (.text current))
          ↔ preparedUnder config value
              (Catalog.loadOrEmpty after.disk config.stepGroups.catalog) after.disk source
            = preparedUnder config value catalog after.disk source) := by
  have properBefore := history.proper proper
  obtain ⟨found, created, isReady, built⟩ := run_eq_ok ran
  obtain ⟨once, areSources⟩ := isSource_of_ready properBefore isReady
  have member : (source, .reused) ∈ (buildFiles
      (preparationOn created.disk (config.caching enabled) value)
      (allowsReuse (config.caching enabled) force outcome.refresh) found created).1 := by
    rw [built]
    exact mem_reused_iff.mp reused
  obtain ⟨names, isSource⟩ : ∃ names, config.IsSource source names := by
    refine areSources source ?_
    rw [← map_fst_buildFiles _ _ found created]
    exact List.mem_map_of_mem member
  have tracked := history.tracked isSource proper apart spared uncached
  have isReady : ready config force before = .ok (outcome.refresh, found) created := isReady
  have first := (confined_ready config force before).ofOk isReady
  have apartCreated : (config.caching enabled).Apart created :=
    apart_caching (apart_of_confined tracked.apart first)
  obtain ⟨text, cached, output⟩ := content?_of_buildFiles_reused once areSources apartCreated isSource
    member
  rw [built] at output
  have cachedBefore : before.disk.content? (cachedPlace config source before.disk.current)
      = some (.text text) := by
    rw [cachedPlace_of_isSource isSource,
      ← first.frame.content?_kept (cached_outside_ready tracked.apart), ← first.frame.current]
    exact cached
  obtain ⟨catalog, _, isMaker, prepared, isText⟩ := tracked.cached _ cachedBefore
  obtain rfl := Content.text.inj isText
  obtain ⟨confined, -⟩ := tracked.remade isSource ran
  have preparedAfter : preparedUnder config value catalog after.disk source = .ok text :=
    (preparedUnder_of_agree catalog (tracked.agree confined)).trans prepared
  have outputAfter : output? config after.disk source = some (.text text) := by
    have current : after.disk.current = created.disk.current :=
      confined.frame.current.trans first.frame.current.symm
    rw [output?_of_isSource isSource, current]
    exact output
  refine ⟨catalog, text, isMaker, preparedAfter, outputAfter, ?_⟩
  rw [preparedAfter, outputAfter]
  constructor
  · rintro ⟨current, preparedNow, same⟩
    rw [preparedNow, Content.text.inj (Option.some.inj same)]
  · exact fun same => ⟨text, same, rfl⟩

end

-----------------------------------------------------------------------------------------
-- A feature that refers to a group
-----------------------------------------------------------------------------------------

namespace Example

/-- The configuration of an example. -/
def config : Config where
  featuresDirectory := .of "f"
  outputDirectory := .of "o"
  dataDirectory := .of "d"
  stepGroups := ⟨.of "g", .of "c", .of "p", .of "b"⟩
  featureCache := ⟨true, .of "k", .of "m"⟩

/-- The feature of the example. -/
def source : Path := .of "f/c.feature"

/-- A directory of the example. -/
def directory : Entry := ⟨.directory, 0, ⟨true, true, true⟩⟩

/-- A file of the example. -/
def file (text : String) (modified : Int) : Entry :=
  ⟨.file (.text text.toList), modified, ⟨true, true, false⟩⟩

/-- A feature that refers to a group without steps, and nothing generated yet. -/
def unbuilt : Workspace where
  disk := {
    entries := ⟨[([], directory), ([['f']], directory),
      ([['f'], "c.feature".toList], file "Feature:\n* Step Group: -a- -x-" 5),
      ([['g']], directory),
      ([['g'], "a.feature".toList], file "@StepGroup:a @StepGroup\nExample:x" 5)], by decide⟩
    current := []
    clock := 100
    canOpen := true }
  provenance := .memory none 0
  metadata := .memory none 0

/-- The workspace after a build. -/
def built : Workspace :=
  Command.left (run config id false unbuilt)

/-- The workspace after an edit that gives the group a step, and a refresh. -/
def refreshed : Workspace :=
  Command.left (Refresh.run config.stepGroups false { built with
    disk := built.disk.put [['g'], "a.feature".toList]
      (file "@StepGroup:a @StepGroup\nExample:x\n* s" 200) })

/-- All that preparing the feature reads stands outside what builds generate. -/
theorem spared : ∀ place, Reads config id unbuilt.disk source place →
    (territory config unbuilt).Spares unbuilt.disk place :=
  spares_of_inputs (by decide +kernel)

theorem apart : config.Apart unbuilt where
  cacheOutside := by decide +kernel
  outputOutside := by decide +kernel
  documents := by decide +kernel

/-- The first build prepares the feature. -/
theorem exists_built
    : ∃ first, run config id false unbuilt = .ok first built ∧ first.files = [(source, .processed)] := by
  have files : (Command.value? (run config id false unbuilt)).map BuildOutcome.files
      = some [(source, .processed)] := by
    decide +kernel
  obtain ⟨first, found, files⟩ := Option.map_eq_some_iff.mp files
  exact ⟨first, Command.eq_ok_of_value? found, files⟩

end Example

set_option maxRecDepth 100000 in
/-- Witness: a second build reuses the feature that the first one has cached. -/
theorem reused_eq_prepared_iff_second_build
    : ∃ outcome after catalog text,
        run Example.config id false Example.built = .ok outcome after
        ∧ Example.source ∈ outcome.reused
        ∧ preparedUnder Example.config id catalog after.disk Example.source = .ok text
        ∧ output? Example.config after.disk Example.source = some (.text text) := by
  have second : (Command.value? (run Example.config id false Example.built)).map
      BuildOutcome.reused = some [Example.source] := by
    decide +kernel
  obtain ⟨first, built, -⟩ := Example.exists_built
  have built : run (Example.config.caching true) id false Example.unbuilt = .ok first Example.built := built
  obtain ⟨outcome, found, isReused⟩ := Option.map_eq_some_iff.mp second
  have ran : run (Example.config.caching true) id false Example.built = .ok outcome _ :=
    Command.eq_ok_of_value? found
  have reused : Example.source ∈ outcome.reused := by simp [isReused]
  obtain ⟨catalog, text, -, prepared, output, -⟩ := reused_eq_prepared_iff
    (show Example.unbuilt.disk.Proper by decide +kernel) Example.apart Example.spared
    (by decide +kernel) (.build .start built) ran reused
  exact ⟨outcome, _, catalog, text, ran, reused, prepared, output⟩

set_option maxRecDepth 100000 in
/-- Counterexample: after the group got a step and a refresh has stored it, a build reuses the feature
that was prepared before.
-/
theorem reused_without_new_step
    : (Command.value? (run Example.config id false Example.refreshed)).map BuildOutcome.reused
        = some [Example.source]
      ∧ output? Example.config (Command.left (run Example.config id false Example.refreshed)).disk
          Example.source
        = some (.text "Feature:\n# [START] Step Group: a - x\n# [END] Step Group: a".toList)
      ∧ preparedUnder Example.config id
          (Catalog.loadOrEmpty
            (Command.left (run Example.config id false Example.refreshed)).disk
            Example.config.stepGroups.catalog)
          (Command.left (run Example.config id false Example.refreshed)).disk Example.source
        = .ok "Feature:\n# [START] Step Group: a - x\n* s\n# [END] Step Group: a".toList := by
  decide +kernel

end Build

end FeaturePress
