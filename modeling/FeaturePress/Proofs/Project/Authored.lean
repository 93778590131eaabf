import FeaturePress.Proofs.Disk.Downward
import FeaturePress.Proofs.Disk.Excluding
import FeaturePress.Proofs.Project.Accounting
import FeaturePress.Proofs.Project.Artifacts

/-! Which files builds take for features. A listed file stands below the directory of the features and
not in the step groups, and a sequence of builds lists what was there before the first of them, as long
as no build puts its outputs or cached forms among the features.
-/

namespace FeaturePress

theorem Artifacts.Bound.trans {artifacts : Artifacts} {first second third : Disk}
    (before : artifacts.Bound first second) (after : artifacts.Bound second third)
    (current : second.current = first.current)
    : artifacts.Bound first third := by
  intro place entry uncovered isFile
  exact (after place entry (current ▸ uncovered) isFile).trans (before place entry uncovered isFile)

namespace Build

variable {config : Config} {value : Text → Text} {force : Bool} {start before after : Disk}
  {outcome : BuildOutcome} {workspace left : Workspace} {source : Path}

-----------------------------------------------------------------------------------------
-- One build
-----------------------------------------------------------------------------------------

/-- Where the step groups lie, so that no feature is taken for one of them and none of them for a
feature: apart from the features, or below these and spelled so.
-/
def GroupsApart (config : Config) (start : Location) : Prop :=
  config.stepGroups.sourceDirectory.Continues config.featuresDirectory
    ∨ Location.Apart (config.stepGroups.sourceDirectory.place start) (config.featuresDirectory.place start)

/-- A generated directory that takes in no feature and lies among none: it is apart from the features, or
in the step groups.
-/
def OutOfFeatures (config : Config) (start : Location) (directory : Path) : Prop :=
  Location.Apart (directory.place start) (config.featuresDirectory.place start)
    ∨ config.stepGroups.sourceDirectory.place start <+: directory.place start

instance (config : Config) (start : Location) (directory : Path)
    : Decidable (OutOfFeatures config start directory) :=
  inferInstanceAs (Decidable (_ ∨ _))

/-- A listed file is a file below the features and outside the step groups. -/
theorem place_of_listed {found : List Path} {disk : Disk} (proper : disk.Proper)
    (apart : GroupsApart config disk.current)
    (listed : disk.featureFiles config.featuresDirectory [config.stepGroups.sourceDirectory] = .ok found)
    (member : source ∈ found)
    : config.featuresDirectory.place disk.current <+: source.place disk.current
      ∧ ¬ config.stepGroups.sourceDirectory.place disk.current <+: source.place disk.current
      ∧ ∃ entry, disk.entry? (source.place disk.current) = some entry ∧ entry.isDirectory = false := by
  obtain ⟨names, entry, isPath, areNames, stands, isFile⟩ :=
    Disk.file_of_mem_featureFiles proper listed member
  have below : config.featuresDirectory.place disk.current <+: source.place disk.current := by
    rw [isPath, Path.place_along _ areNames]
    exact List.prefix_append ..
  refine ⟨below, ?_, entry, stands, isFile⟩
  rcases apart with continues | apart
  · exact Disk.outside_of_listed proper listed member (List.mem_singleton_self _) continues
  · exact fun inGroups => (List.prefix_or_prefix_of_prefix inGroups below).elim apart.1 apart.2

/-- A build that succeeds lists feature files of the disk that its refresh leaves. -/
theorem listed_of_run (proper : workspace.disk.Proper)
    (ran : run config value force workspace = .ok outcome left)
    : ∃ refreshed, Refresh.run config.stepGroups force workspace = .ok outcome.refresh refreshed
        ∧ refreshed.disk.Proper
        ∧ refreshed.disk.featureFiles config.featuresDirectory [config.stepGroups.sourceDirectory]
          = .ok (outcome.files.map Prod.fst) := by
  obtain ⟨found, created, got, built⟩ := run_eq_ok ran
  obtain ⟨refreshed, -, -, refreshRan, listing, -⟩ := ready_eq_ok got
  have confined := (Refresh.confined_run config.stepGroups force workspace).ofOk refreshRan
  have listed : outcome.files.map Prod.fst = found := by
    rw [← map_fst_buildFiles (preparationOn created.disk config value)
      (allowsReuse config force outcome.refresh) found created, built]
  exact ⟨refreshed, refreshRan, confined.frame.proper proper (Refresh.isProper_territory proper _),
    listed ▸ listing⟩

-----------------------------------------------------------------------------------------
-- Builds one after the other
-----------------------------------------------------------------------------------------

/-- The disks that builds lead to one after the other, whether they succeed or fail. -/
inductive Builds (config : Config) (start : Disk) : Disk → Prop where
  | start : Builds config start start
  | next {before : Disk} (built : Builds config start before) (value : Text → Text) (force : Bool)
      : Builds config start (Command.left (run config value force (.ofConfig config before))).disk

namespace Builds

/-- What one build does to a proper disk: it leaves it proper, starts paths where they started, and
concerns no file but its artifacts.
-/
theorem step (config : Config) (value : Text → Text) (force : Bool) (proper : before.Proper)
    : (Command.left (run config value force (.ofConfig config before))).disk.Proper
      ∧ (Command.left (run config value force (.ofConfig config before))).disk.current = before.current
      ∧ (artifacts config).Bound before
          (Command.left (run config value force (.ofConfig config before))).disk := by
  refine ⟨?_, (confined_run config value force (.ofConfig config before) proper).frame.current,
    bound_run config before value force proper⟩
  cases ran : run config value force (.ofConfig config before) with
  | ok outcome left => exact proper_of_run proper ran
  | error error left =>
      have confined := confined_run_of_error ran
      exact confined.frame.proper proper (isProper_readyTerritory proper config)

/-- What one build does any number of them does, by induction on the builds. -/
theorem keeps (proper : start.Proper) (built : Builds config start before)
    : before.Proper ∧ before.current = start.current ∧ (artifacts config).Bound start before := by
  induction built with
  | start => exact ⟨proper, rfl, fun _ _ _ _ => Iff.rfl⟩
  | next built value force ih =>
      obtain ⟨properBefore, sameStart, bound⟩ := ih
      obtain ⟨properAfter, sameBefore, step⟩ := step config value force properBefore
      exact ⟨properAfter, sameBefore.trans sameStart, bound.trans step sameStart⟩

end Builds

/-- Builds one after the other list authored features only, where the generated directories take in no
feature and lie among none: a listed file stands in none of these directories and not in the step groups,
and it stood as it is before the first build, unless it is one of the documents that the builds write.
-/
theorem listed_are_authored (proper : start.Proper) (apart : GroupsApart config start.current)
    (generated : ∀ directory ∈ (artifacts config).directories,
      OutOfFeatures config start.current directory)
    (built : Builds config start before)
    (ran : run config value force (.ofConfig config before) = .ok outcome left)
    (listed : source ∈ outcome.processed ++ outcome.reused ++ outcome.failed.map Prod.fst)
    : (∀ directory ∈ (artifacts config).directories,
        ¬ directory.place start.current <+: source.place start.current)
      ∧ ¬ config.stepGroups.sourceDirectory.place start.current <+: source.place start.current
      ∧ ((∀ document ∈ (artifacts config).documents,
            source.place start.current ≠ document.place start.current) →
          ∃ entry, entry.isDirectory = false ∧ start.entry? (source.place start.current) = some entry
            ∧ before.entry? (source.place start.current) = some entry) := by
  obtain ⟨properBefore, sameStart, bound⟩ := built.keeps proper
  obtain ⟨refreshed, refreshRan, properRefreshed, listing⟩ :=
    listed_of_run (show (Workspace.ofConfig config before).disk.Proper from properBefore) ran
  have refreshing := Refresh.bound_run config before force
  have confined := (Refresh.confined_run config.stepGroups force (.ofConfig config before)).ofOk refreshRan
  have current : refreshed.disk.current = start.current := confined.frame.current.trans sameStart
  rw [refreshRan, Command.left_ok] at refreshing
  have member : source ∈ outcome.files.map Prod.fst :=
    (BuildOutcome.lists_perm outcome.refresh outcome.files).mem_iff.mp listed
  obtain ⟨below, notGroup, entry, stands, isFile⟩ :=
    place_of_listed properRefreshed (current ▸ apart) listing member
  rw [current] at below notGroup stands
  have outside : ∀ directory ∈ (artifacts config).directories,
      ¬ directory.place start.current <+: source.place start.current := by
    intro directory isGenerated inside
    rcases generated directory isGenerated with apart | inGroups
    · exact apart.not_both inside below
    · exact notGroup (inGroups.trans inside)
  refine ⟨outside, notGroup, fun noDocument => ?_⟩
  -- neither the refresh nor an earlier build has concerned the file
  have uncovered : ¬ (artifacts config).Cover start.current (source.place start.current) := by
    rintro (⟨directory, isGenerated, inside⟩ | ⟨document, isDocument, same⟩)
    · exact outside directory isGenerated inside
    · exact noDocument document isDocument same
  have unrefreshed : ¬ (Refresh.artifacts config.stepGroups).Cover before.current
      (source.place start.current) := by
    rw [sameStart]
    rintro (⟨directory, isGenerated, -⟩ | ⟨document, isDocument, same⟩)
    · simp [Refresh.artifacts] at isGenerated
    · exact noDocument document (List.mem_append_left _ isDocument) same
  have stoodBefore := (refreshing _ entry unrefreshed isFile).mp stands
  exact ⟨entry, isFile, (bound _ entry uncovered isFile).mp stoodBefore, stoodBefore⟩

-----------------------------------------------------------------------------------------
-- Step groups among the features
-----------------------------------------------------------------------------------------

namespace Authored

/-- A configuration with the step groups below the features. -/
def grouped : Config :=
  { Example.config with
    stepGroups := { Example.config.stepGroups with sourceDirectory := .of "./f/g" } }

/-- A feature and a document of step groups, and nothing generated yet. -/
def disk : Disk where
  entries := ⟨[([], Example.directory), ([['f']], Example.directory),
    ([['f'], "c.feature".toList], Example.file "Feature:\n* Step Group: -a- -x-" 5),
    ([['f'], ['g']], Example.directory),
    ([['f'], ['g'], "a.feature".toList], Example.file "@StepGroup:a @StepGroup\nExample:x" 5)],
    by decide⟩
  current := []
  clock := 100
  canOpen := true

/-- The disk after a build. -/
def built (config : Config) (disk : Disk) : Disk :=
  (Command.left (run config id false (.ofConfig config disk))).disk

/-- A configuration with the outputs below the features. -/
def nested : Config :=
  { Example.config with outputDirectory := .of "f/o" }

/-- A configuration whose step groups are the features, by a path that leads up. -/
def upward : Config :=
  { Example.config with
    stepGroups := { Example.config.stepGroups with sourceDirectory := .of "f/../f" } }

end Authored

set_option maxRecDepth 100000 in
/-- Witness: a second build lists the feature only, which stands as it stood before the first one. -/
theorem listed_are_authored_second_build
    : ∃ outcome left,
        run Authored.grouped id false (.ofConfig Authored.grouped (Authored.built Authored.grouped Authored.disk))
          = .ok outcome left
        ∧ outcome.processed ++ outcome.reused ++ outcome.failed.map Prod.fst = [Example.source]
        ∧ ¬ Authored.grouped.stepGroups.sourceDirectory.place [] <+: Example.source.place []
        ∧ ∃ entry, entry.isDirectory = false
            ∧ Authored.disk.entry? (Example.source.place []) = some entry
            ∧ Disk.entry? (Authored.built Authored.grouped Authored.disk) (Example.source.place [])
              = some entry := by
  have lists : (Command.value? (run Authored.grouped id false
      (.ofConfig Authored.grouped (Authored.built Authored.grouped Authored.disk)))).map (fun outcome =>
        outcome.processed ++ outcome.reused ++ outcome.failed.map Prod.fst) = some [Example.source] := by
    decide +kernel
  obtain ⟨outcome, found, listed⟩ := Option.map_eq_some_iff.mp lists
  have ran := Command.eq_ok_of_value? found
  have member : Example.source
      ∈ outcome.processed ++ outcome.reused ++ outcome.failed.map Prod.fst := by simp [listed]
  obtain ⟨-, notGroup, stood⟩ := listed_are_authored (show Authored.disk.Proper by decide +kernel)
    (Or.inl ⟨[['g']], by decide, by decide +kernel⟩) (by decide +kernel)
    (.next .start id false) ran member
  exact ⟨outcome, _, ran, listed, notGroup, stood (by decide +kernel)⟩

set_option maxRecDepth 100000 in
/-- Counterexample: both configurations are accepted. With the outputs below the features, the second
build lists an output of the first one; and a step group is listed where the path of the step groups
leads up.
-/
theorem output_listed_and_group_listed
    : Authored.nested.validate = .ok ()
      ∧ Example.unbuilt.disk.entry? ((Path.of "f/o/c.feature").place []) = none
      ∧ (Command.value? (run Authored.nested id false
          (.ofConfig Authored.nested (Authored.built Authored.nested Example.unbuilt.disk)))).map
            BuildOutcome.processed = some [.of "f/o/c.feature"]
      ∧ Authored.nested.outputDirectory.place [] <+: (Path.of "f/o/c.feature").place []
      ∧ Authored.upward.validate = .ok ()
      ∧ (Command.value? (run Authored.upward id false (.ofConfig Authored.upward Example.unbuilt.disk))).map
            BuildOutcome.processed = some [Example.source]
      ∧ Authored.upward.stepGroups.sourceDirectory.place [] <+: Example.source.place [] := by
  decide +kernel

end Build

end FeaturePress
