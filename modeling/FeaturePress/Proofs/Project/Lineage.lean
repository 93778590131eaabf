import FeaturePress.Proofs.Project.Isolated
import FeaturePress.Proofs.Project.SecondBuild

/-! Where the cached forms come from, and what a build that takes them gives. A form is taken because of
the time of its source alone, so it has the text that its source was prepared to by the build that has made
it: from the data files, the variables and the catalogue of that time. A forced build prepares everything
again. So both give the same exactly when every file whose form is taken would be prepared as it was then.
-/

namespace FeaturePress.Build

section

variable {config : Config} {value : Text → Text} {force : Bool} {before after : Workspace}
  {outcome : BuildOutcome} {found : List Path} {source : Path} {names : List Text}

-----------------------------------------------------------------------------------------
-- The builds that have made the cached forms
-----------------------------------------------------------------------------------------

/-- What a build prepares files from: variables, a catalogue and the disk that it begins with. -/
structure Maker where
  value : Text → Text
  catalog : Catalog
  disk : Disk

/-- What a maker prepares a source to. -/
def Maker.prepared (config : Config) (maker : Maker) (source : Path) : Except PrepareError Text :=
  preparedUnder config maker.value maker.catalog maker.disk source

/-- What a build prepares files from that begins with a workspace. -/
def makerOf (config : Config) (value : Text → Text) (force : Bool) (before : Workspace) : Maker :=
  ⟨value, catalogOf config force before, before.disk⟩

/-- The makers of the cached forms after one more build: it is the maker of those that are not as before. -/
def makersAfter (config : Config) (maker : Maker) (before after : Disk) (makers : Path → Option Maker)
    (source : Path)
    : Option Maker :=
  if after.entry? (cachedPlace config source before.current)
      = before.entry? (cachedPlace config source before.current)
    then makers source
    else some maker

/-- The workspaces that builds and edits lead to when nothing was cached at first, with the makers of the
cached forms. Variables may have other values in every build, and edits may change everything but the
cached forms. In every build the project is isolated.
-/
inductive Lineage (config : Config) : Workspace → (Path → Option Maker) → Prop where
  | start {workspace : Workspace} (proper : workspace.disk.Proper)
      (uncached : ∀ names, workspace.disk.content?
        (config.featureCache.directory.place workspace.disk.current ++ names) = none)
      : Lineage config workspace fun _ => none
  | edit {before after : Workspace} {makers : Path → Option Maker} (lineage : Lineage config before makers)
      (proper : after.disk.Proper) (current : after.disk.current = before.disk.current)
      (forms : ∀ place, config.featureCache.directory.place before.disk.current <+: place →
        after.disk.content? place = before.disk.content? place)
      : Lineage config after makers
  | build {before after : Workspace} {makers : Path → Option Maker} {value : Text → Text} {force : Bool}
      {outcome : BuildOutcome} (lineage : Lineage config before makers) (tree : before.disk.IsTree)
      (isolated : Isolated config value (territory config before) before)
      (ran : run config value force before = .ok outcome after)
      : Lineage config after
          (makersAfter config (makerOf config value force before) before.disk after.disk makers)

/-- Every cached form has the text that its source was prepared to by its maker. -/
def Traced (config : Config) (workspace : Workspace) (makers : Path → Option Maker) : Prop :=
  ∀ source names, config.IsSource source names → ∀ content,
    workspace.disk.content? (cachedPlace config source workspace.disk.current) = some content →
      ∃ maker text, makers source = some maker ∧ maker.prepared config source = .ok text
        ∧ content = .text text

/-- A build leaves the form of a source or makes it of the text that it prepares; that of a file which it
does not list it leaves.
-/
theorem Isolated.remade (isolated : Isolated config value (territory config before) before)
    (tree : before.disk.IsTree) (isSource : config.IsSource source names)
    (ran : run config value force before = .ok outcome after)
    : Remade ((makerOf config value force before).prepared config source = .ok ·)
        (cachedPlace config source before.disk.current) before.disk after.disk := by
  obtain ⟨found, created, got, built⟩ := run_eq_ok ran
  by_cases member : source ∈ found
  · exact remade_run tree.proper isolated.apart isSource
      (isolated.inputs found (isolated.listed tree got) source member) ran
  · have getting := (confined_ready config force before).ofOk got
    have areSources : ∀ other ∈ found, ∃ names,
        (preparationOn created.disk config value).config.IsSource other names :=
      (isSource_of_ready tree.proper got).2
    have building := confined_buildFiles (allowsReuse config force outcome.refresh) created areSources
    have outside := (outside_of_not_mem (apart_of_confined isolated.apart getting) isSource member).1
    rw [built] at building
    rw [getting.frame.current] at outside
    rw [cachedPlace_of_isSource isSource]
    exact (Remade.ofFrame getting.frame (cached_outside_ready isolated.apart)).trans
      (Remade.ofFrame building.frame outside)

namespace Lineage

variable {makers : Path → Option Maker}

theorem proper (lineage : Lineage config before makers) : before.disk.Proper := by
  cases lineage with
  | start proper => exact proper
  | edit _ proper => exact proper
  | build _ tree _ ran => exact proper_of_run tree.proper ran

/-- Builds and edits keep the cached forms traced, by induction on the steps. -/
theorem traced (lineage : Lineage config before makers) : Traced config before makers := by
  induction lineage with
  | start _ uncached =>
      intro source names isSource content holds
      rw [cachedPlace_of_isSource isSource, uncached names] at holds
      simp at holds
  | @edit before after makers _ _ current forms ih =>
      intro source names isSource content holds
      have below : config.featureCache.directory.place before.disk.current
          <+: cachedPlace config source before.disk.current := by
        rw [cachedPlace_of_isSource isSource]
        exact List.prefix_append ..
      rw [current, forms _ below] at holds
      exact ih source names isSource content holds
  | @build before after makers value force outcome _ tree isolated ran ih =>
      intro source names isSource content holds
      have confined := (confined_run config value force before tree.proper).ofOk ran
      rw [confined.frame.current] at holds
      unfold makersAfter
      split
      · next same =>
          rw [Disk.content?, same] at holds
          exact ih source names isSource content holds
      · next differ =>
          obtain ⟨text, prepared, isText⟩ :=
            (isolated.remade tree isSource ran content holds).resolve_left differ
          exact ⟨_, text, rfl, prepared, isText⟩

end Lineage

/-- A build that reuses files gives what one gives that prepares all of them from the same, exactly when the
cached forms of the reused files are what these are prepared to.
-/
theorem PartlyBuilt.same_iff {prepared : Path → Except PrepareError Text} {start early late : Disk}
    {full second : BuildOutcome} (areSources : ∀ source ∈ found, ∃ names, config.IsSource source names)
    (built : PartlyBuilt config prepared found start full early) (nothingReused : full.reused = [])
    (again : PartlyBuilt config prepared found start second late)
    : (second.failed = full.failed
        ∧ ∀ names, late.content? (config.outputDirectory.place late.current ++ names)
          = early.content? (config.outputDirectory.place early.current ++ names))
      ↔ ∀ source ∈ second.reused, ∀ text,
          start.content? (cachedPlace config source start.current) = some (.text text) →
            prepared source = .ok text := by
  have ofFull {source : Path} {names : List Text} (member : source ∈ found)
      (isSource : config.IsSource source names)
      : early.content? (config.outputDirectory.place early.current ++ names)
        = (made none (prepared source)).2 :=
    built.others source member (by simp [nothingReused]) names isSource
  constructor
  · intro ⟨_, same⟩ source reused text form
    obtain ⟨names, isSource⟩ := areSources source (again.mem_found reused)
    obtain ⟨other, sameForm, output⟩ := again.reused source reused names isSource
    obtain rfl := Content.text.inj (Option.some.inj (sameForm.symm.trans form))
    refine made_some_eq_iff.mp ?_
    calc (made (some other) (prepared source)).2
        = late.content? (config.outputDirectory.place late.current ++ names) := by rw [output]; rfl
      _ = early.content? (config.outputDirectory.place early.current ++ names) := same names
      _ = (made none (prepared source)).2 := ofFull (again.mem_found reused) isSource
  · intro current
    -- a reused file is one that the other build prepares, to the text of its cached form
    have ofReused {source : Path} (reused : source ∈ second.reused) : ∃ text, prepared source = .ok text
        ∧ ∀ names, config.IsSource source names →
          late.content? (config.outputDirectory.place late.current ++ names) = some (.text text) := by
      obtain ⟨names, isSource⟩ := areSources source (again.mem_found reused)
      obtain ⟨text, form, output⟩ := again.reused source reused names isSource
      refine ⟨text, current source reused text form, fun others isOther => ?_⟩
      obtain rfl := Path.along_injective isOther.2 isSource.2 (isOther.1.symm.trans isSource.1)
      exact output
    refine ⟨failed_congr built.files again.files fun source member => ?_, fun names => ?_⟩
    · unfold outcomeOf
      rw [nothingReused, if_neg List.not_mem_nil]
      split
      · next reused =>
          obtain ⟨text, isPrepared, -⟩ := ofReused reused
          exact Or.inr fun error => by simp [isPrepared, made]
      · exact Or.inl rfl
    · by_cases listed : ∃ source ∈ found, config.IsSource source names
      · obtain ⟨source, member, isSource⟩ := listed
        rw [ofFull member isSource]
        by_cases reused : source ∈ second.reused
        · obtain ⟨text, isPrepared, output⟩ := ofReused reused
          rw [output names isSource, isPrepared]
          rfl
        · exact again.others source member reused names isSource
      · have vacant {disk : Disk} (nothingElse : ∀ content,
            disk.content? (config.outputDirectory.place disk.current ++ names) = some content →
              ∃ source ∈ found, config.IsSource source names)
            : disk.content? (config.outputDirectory.place disk.current ++ names) = none :=
          Option.eq_none_iff_forall_ne_some.mpr fun content stands => listed (nothingElse content stands)
        rw [vacant (again.nothingElse names), vacant (built.nothingElse names)]

/-- A source is prepared as by a maker that had the same variables and the same catalogue, and for which
all that preparing the source reads was the same.
-/
theorem Maker.prepared_eq {maker : Maker} (values : maker.value = value)
    (catalog : maker.catalog = catalogOf config force before)
    (inputs : Disk.Agree (Reads config maker.value maker.disk source) maker.disk before.disk)
    : (makerOf config value force before).prepared config source = maker.prepared config source := by
  unfold makerOf Maker.prepared
  rw [← values, ← catalog]
  exact preparedUnder_of_agree maker.catalog inputs

/-- A build and a forced one that begin with the same project, which has come about by builds and edits of
any kind, and that use the same catalogue. A file that is reused has the text that the maker of its cached
form has prepared. So both builds give the same failures and the same output tree exactly when every file
that is reused is prepared as it was by its maker, and they do where nothing has changed that preparing
these files depends on.
-/
theorem unforced_eq_forced_iff {makers : Path → Option Maker} (valid : config.validate = .ok ())
    (tree : before.disk.IsTree) (direct : before.disk.Direct config.outputDirectory)
    (isolated : Isolated config value (territory config before) before)
    (extract : Refresh.DocumentsExtract config.stepGroups before.disk)
    (lineage : Lineage config before makers)
    (sameCatalog : catalogOf config false before = catalogOf config true before)
    (builds : Unhindered (run config value false before)) (forces : Unhindered (run config value true before))
    : ∃ second last full lastFull,
        run config value false before = .ok second last ∧ run config value true before = .ok full lastFull
        ∧ second.files.map Prod.fst = full.files.map Prod.fst
        ∧ (∀ source ∈ second.reused, ∃ maker text, makers source = some maker
          ∧ maker.prepared config source = .ok text ∧ output? config last.disk source = some (.text text))
        ∧ ((second.failed = full.failed
            ∧ ∀ names, last.disk.content? (config.outputDirectory.place last.disk.current ++ names)
              = lastFull.disk.content? (config.outputDirectory.place lastFull.disk.current ++ names))
          ↔ ∀ source ∈ second.reused, ∀ maker, makers source = some maker →
              (makerOf config value true before).prepared config source = maker.prepared config source)
        ∧ ((∀ source ∈ second.reused, ∀ maker, makers source = some maker →
              maker.value = value ∧ maker.catalog = catalogOf config true before
              ∧ Disk.Agree (Reads config maker.value maker.disk source) maker.disk before.disk) →
            second.failed = full.failed
              ∧ ∀ names, last.disk.content? (config.outputDirectory.place last.disk.current ++ names)
                = lastFull.disk.content? (config.outputDirectory.place lastFull.disk.current ++ names)) := by
  obtain ⟨second, last, found, _, ran, reusing⟩ := isolated.exists_performed valid tree direct extract builds
  obtain ⟨full, lastFull, others, _, ranFull, making⟩ :=
    isolated.exists_performed valid tree direct extract forces
  obtain rfl := Except.ok.inj (reusing.listed.symm.trans making.listed)
  have areSources : ∀ source ∈ found, ∃ names, config.IsSource source names := reusing.areSources
  have nothingReused : full.reused = [] := making.reused_eq_nil (by simp [allowsReuse])
  have built := making.partlyBuilt
  have again := reusing.partlyBuilt
  rw [sameCatalog] at again
  -- the form of a reused file, and what its maker has prepared
  have form {source : Path} (reused : source ∈ second.reused) : ∃ maker text, makers source = some maker
      ∧ maker.prepared config source = .ok text
      ∧ before.disk.content? (cachedPlace config source before.disk.current) = some (.text text)
      ∧ output? config last.disk source = some (.text text) := by
    obtain ⟨names, isSource⟩ := areSources source (again.mem_found reused)
    obtain ⟨text, holds, output⟩ := again.reused source reused names isSource
    obtain ⟨maker, _, isMaker, prepared, isText⟩ := lineage.traced source names isSource _ holds
    obtain rfl := Content.text.inj isText
    exact ⟨maker, text, isMaker, prepared, holds, (output?_of_isSource isSource _).trans output⟩
  have criterion : (second.failed = full.failed
      ∧ ∀ names, last.disk.content? (config.outputDirectory.place last.disk.current ++ names)
        = lastFull.disk.content? (config.outputDirectory.place lastFull.disk.current ++ names))
      ↔ ∀ source ∈ second.reused, ∀ maker, makers source = some maker →
        (makerOf config value true before).prepared config source = maker.prepared config source := by
    refine (PartlyBuilt.same_iff areSources built nothingReused again).trans ?_
    refine forall₂_congr fun source reused => ?_
    obtain ⟨maker, text, isMaker, prepared, holds, -⟩ := form reused
    constructor
    · intro current other isOther
      obtain rfl := Option.some.inj (isMaker.symm.trans isOther)
      exact (current text holds).trans prepared.symm
    · intro same other isForm
      obtain rfl := Content.text.inj (Option.some.inj (holds.symm.trans isForm))
      exact (same maker isMaker).trans prepared
  refine ⟨second, last, full, lastFull, ran, ranFull, ?_, fun source reused => ?_, criterion, fun unchanged => ?_⟩
  · rw [again.files, built.files, List.map_map, List.map_map]
    rfl
  · obtain ⟨maker, text, isMaker, prepared, -, output⟩ := form reused
    exact ⟨maker, text, isMaker, prepared, output⟩
  · refine criterion.mpr fun source reused maker isMaker => ?_
    obtain ⟨values, catalog, inputs⟩ := unchanged source reused maker isMaker
    exact Maker.prepared_eq values catalog inputs

end

-----------------------------------------------------------------------------------------
-- Data that change
-----------------------------------------------------------------------------------------

namespace Example

/-- The feature with an examples table, and data for it. -/
def stocked : Workspace where
  disk := {
    entries := ⟨[([], directory), ([['d']], directory), ([['d'], "e.csv".toList], file "n\n0" 5),
      ([['f']], directory),
      ([['f'], "c.feature".toList], file "Feature:\nExamples: \x7bdatafile: 'e.csv'\x7d" 5),
      ([['f'], "e.csv".toList], file "n\n1" 5)], by decide⟩
    current := []
    clock := 100
    canOpen := true }
  provenance := .memory none 0
  metadata := .memory none 0

/-- What is left of that project by a build and an edit of the data that it was built with. -/
def restocked : Workspace where
  disk := {
    entries := ⟨[([], directory.at 105),
      ([['b']], ⟨.file (.text (Bindings.file SortedMap.empty)), 102, ⟨true, true, false⟩⟩),
      ([['c']], file "\x7b\x7d\n" 101), ([['d']], directory), ([['d'], "e.csv".toList], file "n\n0" 5),
      ([['f']], directory),
      ([['f'], "c.feature".toList], file "Feature:\nExamples: \x7bdatafile: 'e.csv'\x7d" 5),
      ([['f'], "e.csv".toList], file "n\n2" 200), ([['k']], directory.at 106),
      ([['k'], "c.feature".toList], file "Feature:\nExamples:\n  | n |\n  | 1 |" 106),
      ([['o']], directory.at 104),
      ([['o'], "c.feature".toList], file "Feature:\nExamples:\n  | n |\n  | 1 |" 104)], by decide⟩
    current := []
    clock := 107
    canOpen := true }
  provenance := .memory (some ⟨[("__stepGroupCache".toList, 101), ("__stepGroupDef".toList, 102)],
    by decide⟩) 1
  metadata := .memory (some ⟨[("f/c.feature".toList, ⟨.of "k/c.feature", .ofMilliseconds 107⟩)],
    by decide⟩) 1

theorem isolated_stocked : Isolated config id (territory config stocked) stocked := by
  have sound : Sound config id [source] stocked :=
    .of_stands (by decide +kernel) (disjoint.of_sublist rfl (by decide)) (by decide +kernel)
      (spares_of_inputs (by decide +kernel))
  exact .of_sound sound (by decide +kernel)

theorem isolated_restocked : Isolated config id (territory config restocked) restocked := by
  have sound : Sound config id [source] restocked :=
    .of_stands (by decide +kernel) (disjoint.of_sublist rfl (by decide)) (by decide +kernel)
      (spares_of_inputs (by decide +kernel))
  exact .of_sound sound (by decide +kernel)

/-- What was prepared from the data before the edit. -/
def oldTable : Content :=
  .text "Feature:\nExamples:\n  | n |\n  | 1 |".toList

/-- What is prepared from the data after the edit. -/
def newTable : Content :=
  .text "Feature:\nExamples:\n  | n |\n  | 2 |".toList

/-- The makers of the cached forms after the build: it has made the only one. -/
def makers : Path → Option Maker :=
  makersAfter config (makerOf config id false stocked) stocked.disk
    (Command.left (run config id false stocked)).disk fun _ => none

/-- The edited workspace has come about by a build and an edit that leaves the cached form. -/
theorem lineage_restocked : Lineage config restocked makers := by
  obtain ⟨ran, edited⟩ : Command.succeeds (run config id false stocked) = true
      ∧ Disk.entries ((Command.left (run config id false stocked)).disk.put [['f'], "e.csv".toList]
          (file "n\n2" 200))
        = restocked.disk.entries := by
    decide +kernel
  have proper : stocked.disk.Proper := by decide +kernel
  have uncached : ∀ place ∈ stocked.disk.entries.keys,
      ¬ config.featureCache.directory.place stocked.disk.current <+: place := by
    decide +kernel
  obtain ⟨outcome, ran⟩ := Command.eq_ok_of_succeeds ran
  have current := ((confined_run config id false stocked proper).ofOk ran).frame.current
  refine .edit (.build (.start proper fun names => ?_) (by decide +kernel) isolated_stocked ran)
    (by decide +kernel) current.symm fun place below => ?_
  · refine Option.eq_none_iff_forall_ne_some.mpr fun content stands => ?_
    obtain ⟨entry, stands, -⟩ := Disk.content?_eq_some_iff.mp stands
    exact uncached _ (SortedMap.mem_keys_iff.mpr ⟨entry, stands⟩) (List.prefix_append ..)
  · have differ : place ≠ [['f'], "e.csv".toList] := by
      rintro rfl
      rw [current] at below
      revert below
      decide
    have same : restocked.disk.entry? place
        = Disk.entry? (Command.left (run config id false stocked)).disk place := by
      unfold Disk.entry?
      rw [← edited]
      exact (Disk.entry?_put ..).trans (if_neg differ)
    rw [Disk.content?, same, Disk.content?]

end Example

set_option maxRecDepth 100000 in
/-- Witness: after an edit of the data a build takes the form that was made before, so it does not give what
a forced build gives.
-/
theorem unforced_eq_forced_iff_restocked
    : ∃ second last full lastFull,
        run Example.config id false Example.restocked = .ok second last
        ∧ run Example.config id true Example.restocked = .ok full lastFull
        ∧ second.reused = [Example.source]
        ∧ output? Example.config last.disk Example.source = some Example.oldTable
        ∧ ¬ (second.failed = full.failed
            ∧ ∀ names, last.disk.content? (Example.config.outputDirectory.place last.disk.current ++ names)
              = lastFull.disk.content?
                (Example.config.outputDirectory.place lastFull.disk.current ++ names)) := by
  obtain ⟨builds, shown⟩ : (Command.value? (run Example.config id false Example.restocked)).map
        BuildOutcome.files = some [(Example.source, .reused)]
      ∧ output? Example.config (Command.left (run Example.config id false Example.restocked)).disk
        Example.source = some Example.oldTable := by
    decide +kernel
  have forces : (Command.value? (run Example.config id true Example.restocked)).map BuildOutcome.files
      = some [(Example.source, .processed)] := by
    decide +kernel
  have now : (makerOf Example.config id true Example.restocked).prepared Example.config Example.source
      = .ok "Feature:\nExamples:\n  | n |\n  | 2 |".toList := by
    decide +kernel
  have listed : Example.restocked.disk.featureFiles Example.config.stepGroups.sourceDirectory [] = .ok [] := by
    decide +kernel
  have extract : Refresh.DocumentsExtract Example.config.stepGroups Example.restocked.disk := by
    intro paths met path member
    obtain rfl := Except.ok.inj (listed.symm.trans met)
    simp at member
  obtain ⟨second, last, full, lastFull, ran, ranFull, -, shows, same, -⟩ :=
    unforced_eq_forced_iff (by decide) (by decide +kernel) (by decide +kernel) Example.isolated_restocked
      extract Example.lineage_restocked (by decide +kernel) (.of_files builds (by simp))
      (.of_files forces (by simp))
  have reused : second.reused = [Example.source] := by
    have files : second.files = [(Example.source, .reused)] := by
      simpa [ran, Command.value?] using builds
    simp [BuildOutcome.reused, files]
  rw [ran, Command.left_ok] at shown
  refine ⟨second, last, full, lastFull, ran, ranFull, reused, shown, fun equal => ?_⟩
  obtain ⟨maker, text, isMaker, prepared, output⟩ := shows Example.source (by simp [reused])
  have asNow := same.mp equal Example.source (by simp [reused]) maker isMaker
  obtain rfl := Except.ok.inj (now.symm.trans (asNow.trans prepared))
  exact absurd (shown.symm.trans output) (by decide)

set_option maxRecDepth 100000 in
/-- Counterexample: the build has failed for no file, and only the data have changed since. The next build takes
the form that was made of the old data, and a forced one prepares the feature from the new ones.
-/
theorem reused_after_data_changed
    : (Command.value? (run Example.config id false Example.stocked)).map
          (fun outcome => (outcome.processed, outcome.failed)) = some ([Example.source], [])
      ∧ Disk.entries ((Command.left (run Example.config id false Example.stocked)).disk.put
            [['f'], "e.csv".toList] (Example.file "n\n2" 200))
          = Example.restocked.disk.entries
      ∧ (Command.value? (run Example.config id false Example.restocked)).map BuildOutcome.reused
          = some [Example.source]
      ∧ output? Example.config (Command.left (run Example.config id false Example.restocked)).disk
          Example.source = some Example.oldTable
      ∧ output? Example.config (Command.left (run Example.config id true Example.restocked)).disk
          Example.source = some Example.newTable := by
  decide +kernel

end FeaturePress.Build
