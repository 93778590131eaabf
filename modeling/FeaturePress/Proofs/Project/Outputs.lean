import Mathlib.Data.List.Nodup
import FeaturePress.Proofs.Disk.Renewing
import FeaturePress.Proofs.Project.Reusing

/-! What a build makes of every file, on an output tree that was made anew. Building a file only adds, so
the output of every file can be written: a file is taken from the cache, or it is prepared, or preparing
it fails. What becomes of one file does not depend on the others.
-/

namespace FeaturePress.Build

variable {config : Config} {preparation : Preparation} {reuseAllowed : Bool} {source : Path}
  {names : List Text} {workspace : Workspace} {sources remaining : List Path}

-----------------------------------------------------------------------------------------
-- Files that remain to be built
-----------------------------------------------------------------------------------------

/-- A build of some files of which some remain. The output tree was made anew, changes have only added to
it, and nothing stands yet at the outputs of the remaining files.
-/
structure Underway (config : Config) (sources remaining : List Path) (workspace : Workspace) : Prop where
  tree : workspace.disk.IsTree
  disjoint : config.Disjoint workspace
  renewed : ∃ created, Disk.Renewed config.outputDirectory created
    ∧ Disk.Grows (sourcesTerritory config sources workspace).Changes created workspace.disk
  vacant : ∀ source ∈ remaining, ∀ names, config.IsSource source names →
    workspace.disk.entry? (config.outputDirectory.place workspace.disk.current ++ names) = none
  subset : remaining ⊆ sources
  once : remaining.Nodup

/-- What is changed below the output directory are the outputs of the files. -/
theorem output_of_changes {place : Location} (disjoint : config.Disjoint workspace)
    (inside : config.outputDirectory.place workspace.disk.current <+: place)
    (changes : (sourcesTerritory config sources workspace).Changes place)
    : ∃ source ∈ sources, ∃ names, config.IsSource source names
        ∧ place = config.outputDirectory.place workspace.disk.current ++ names := by
  obtain ⟨names, ⟨source, member, isSource⟩, changes⟩ := Disk.Territory.changes_any_iff.mp changes
  refine ⟨source, member, names, isSource, ?_⟩
  rcases (changes_fileTerritory_iff isSource.2).mp changes with same | rfl | ⟨path, isRecord, rfl⟩
  · exact same
  · exact (disjoint.output_cache.not_both inside (List.prefix_append _ _)).elim
  · exact ((disjoint.output_document (metadata_mem_documentPaths isRecord)).1 inside).elim

namespace Underway

/-- Nothing was built yet. -/
theorem start (tree : workspace.disk.IsTree) (disjoint : config.Disjoint workspace)
    (renewed : Disk.Renewed config.outputDirectory workspace.disk) (listed : Listed config sources)
    : Underway config sources sources workspace where
  tree := tree
  disjoint := disjoint
  renewed := ⟨workspace.disk, renewed, .refl _ _⟩
  vacant := fun source member names isSource =>
    renewed.shape.2.2 _ (List.prefix_append _ _) (by simp [listed.ne_nil member isSource])
  subset := List.Subset.refl _
  once := listed.once

/-- The output of a remaining file can be written. -/
theorem write (underway : Underway config sources remaining workspace) (listed : Listed config sources)
    (member : source ∈ remaining) (isSource : config.IsSource source names)
    (short : ∀ name ∈ names, Disk.isTooLong name = false ∧ '\x00' ∉ name) (content : Content)
    : ∃ written, workspace.disk.write (config.outputDirectory.below names) content = (.ok (), written) := by
  obtain ⟨created, renewed, grows⟩ := underway.renewed
  refine renewed.write grows underway.tree underway.disjoint.down_output isSource.2
    (listed.ne_nil (underway.subset member) isSource) short ?_
    (underway.vacant source member names isSource) content
  rintro place ⟨inside, above, differ⟩ changes
  obtain ⟨other, memberOther, others, isOther, rfl⟩ :=
    output_of_changes underway.disjoint inside changes
  have same := listed.prefixFree other memberOther source (underway.subset member) others names isOther
    isSource ((List.prefix_append_right_inj _).mp above)
  exact differ (by rw [same])


/-- Building a file leaves the outputs of other files vacant. -/
theorem vacant_of_buildFile {other : Path} {others : List Text} (disjoint : preparation.config.Disjoint workspace)
    (listed : Listed preparation.config sources) (member : source ∈ sources)
    (memberOther : other ∈ sources) (isSource : preparation.config.IsSource source names)
    (isOther : preparation.config.IsSource other others) (differ : other ≠ source)
    (vacant : workspace.disk.entry?
      (preparation.config.outputDirectory.place workspace.disk.current ++ others) = none)
    : (buildFile preparation reuseAllowed source workspace).2.disk.entry?
        (preparation.config.outputDirectory.place workspace.disk.current ++ others) = none := by
  have differNames : others ≠ names := fun same => differ (by rw [isSource.1, isOther.1, same])
  refine (confined_buildFile reuseAllowed workspace isSource).frame.vacant_kept ?_ ?_ vacant
  · exact fun writes => output_outside disjoint.apart isSource.2 differNames (Or.inr writes)
  · rintro ((onOutput | onCached) | onRecord)
    · have above := (disjoint.down_output.below isSource.2).prefix_of_mem_visited onOutput
      rw [Path.place_below _ isSource.2, List.prefix_append_right_inj] at above
      exact differNames
        (listed.prefixFree other memberOther source member others names isOther isSource above)
    · have above := (disjoint.down_cache.below isSource.2).prefix_of_mem_visited onCached
      rw [Path.place_below _ isSource.2] at above
      exact disjoint.output_cache.not_both ((List.prefix_append _ _).trans above)
        (List.prefix_append _ _)
    · unfold Store.territory at onRecord
      split at onRecord
      · next path isRecord =>
          have isDocument : path ∈ documentPaths preparation.config workspace :=
            metadata_mem_documentPaths isRecord
          have above := (disjoint.down_document isDocument).prefix_of_mem_visited onRecord
          exact (disjoint.output_document isDocument).1 ((List.prefix_append _ _).trans above)
      · exact onRecord

/-- Building a file of those that remain leaves the others. -/
theorem step {rest : List Path} (underway : Underway preparation.config sources (source :: rest) workspace)
    (listed : Listed preparation.config sources) (reuseAllowed : Bool)
    : Underway preparation.config sources rest
        (buildFile preparation reuseAllowed source workspace).2 := by
  have member := underway.subset (List.mem_cons_self ..)
  obtain ⟨names, isSource⟩ := listed.isSource source member
  have confined := confined_buildFile reuseAllowed workspace isSource
  have stable := stable_sourcesTerritory preparation.config sources _ _ _ confined
  have grows : Disk.Grows (sourcesTerritory preparation.config sources workspace).Changes workspace.disk
      (buildFile preparation reuseAllowed source workspace).2.disk :=
    (grows_buildFile reuseAllowed workspace isSource).mono fun place changes =>
      Disk.Territory.changes_any_iff.mpr ⟨names, ⟨source, member, isSource⟩, changes⟩
  obtain ⟨created, renewed, earlier⟩ := underway.renewed
  refine ⟨?_, underway.disjoint.of_confined confined, ⟨created, renewed, ?_⟩, ?_, ?_, ?_⟩
  · exact isTree_of_grows underway.tree grows confined.frame
      (isProper_fileTerritory underway.tree.proper _ _)
  · exact stable ▸ earlier.trans grows
  · intro other memberOther others isOther
    rw [confined.frame.current]
    refine vacant_of_buildFile underway.disjoint listed member
      (underway.subset (List.mem_cons_of_mem _ memberOther)) isSource isOther ?_
      (underway.vacant other (List.mem_cons_of_mem _ memberOther) others isOther)
    rintro rfl
    exact (List.nodup_cons.mp underway.once).1 memberOther
  · exact fun other memberOther => underway.subset (List.mem_cons_of_mem _ memberOther)
  · exact (List.nodup_cons.mp underway.once).2

end Underway

-----------------------------------------------------------------------------------------
-- What is made of one file
-----------------------------------------------------------------------------------------

/-- The outcome of a file and its output: the cached form that is taken, if one is, or else the prepared
form, unless preparing the file fails.
-/
def made (taken : Option Text) (prepared : Except PrepareError Text) : FileOutcome × Option Content :=
  match taken, prepared with
  | some text, _ => (.reused, some (.text text))
  | none, .ok text => (.processed, some (.text text))
  | none, .error error => (.failed error, none)

theorem short_of_read_source {disk : Disk} {text : Text} (isSource : config.IsSource source names)
    (reads : disk.read source = .ok text)
    : ∀ name ∈ names, Disk.isTooLong name = false ∧ '\x00' ∉ name := by
  obtain ⟨entry, found, -⟩ := Disk.read_eq_ok reads
  intro name member
  refine Disk.plain_of_find found name ?_
  rw [isSource.1]
  exact Path.subset_pieces_along _ isSource.2 member

theorem short_of_read_cached {disk : Disk} {text : Text} (isSource : config.IsSource source names)
    (reads : disk.read (FeatureCache.cachedPath config source) = .ok text)
    : ∀ name ∈ names, Disk.isTooLong name = false ∧ '\x00' ∉ name := by
  obtain ⟨entry, found, -⟩ := Disk.read_eq_ok reads
  intro name member
  refine Disk.plain_of_find found name ?_
  rw [FeatureCache.cachedPath_of_isSource isSource]
  obtain ⟨before, pieces, -⟩ := Path.pieces_below config.featureCache.directory isSource.2
    (List.ne_nil_of_mem member)
  rw [pieces]
  exact List.mem_append_right _ member

section

variable (underway : Underway preparation.config sources remaining workspace)
  (listed : Listed preparation.config sources) (member : source ∈ remaining)
  (isSource : preparation.config.IsSource source names)

include underway listed member isSource

/-- What a remaining file is prepared to is written to its output. -/
theorem run_of_prepared {content : Text} (prepared : preparation.prepared workspace.disk source = .ok content)
    : ∃ written, Disk.Wrote (preparation.config.outputDirectory.below names) (.text content)
          workspace.disk written
        ∧ preparation.run workspace.disk source
          = (.ok (preparation.config.outputDirectory.below names, content), written) := by
  obtain ⟨_, text, reads, -⟩ := Preparation.prepared_eq_ok prepared
  obtain ⟨written, wrote⟩ := underway.write listed member isSource
    (short_of_read_source isSource reads) (.text content)
  refine ⟨written, Disk.wrote_of_write wrote, ?_⟩
  unfold Preparation.run
  rw [Preparation.outputPath_of_isSource isSource, prepared]
  simp only [wrote]

/-- A remaining file that is prepared. -/
theorem process_eq_made
    : (process preparation source workspace).1
        = (made none (preparation.prepared workspace.disk source)).1
      ∧ (process preparation source workspace).2.disk.content?
          (preparation.config.outputDirectory.place workspace.disk.current ++ names)
        = (made none (preparation.prepared workspace.disk source)).2 := by
  have vacant := underway.vacant source member names isSource
  unfold process
  cases prepared : preparation.prepared workspace.disk source with
  | error error =>
      unfold Preparation.run
      rw [Preparation.outputPath_of_isSource isSource, prepared]
      simp [made, Disk.content?, vacant]
  | ok content =>
      obtain ⟨written, wrote, ran⟩ := run_of_prepared underway listed member isSource prepared
      have confined : Command.Confined _ workspace { workspace with disk := written } :=
        .ofFrame wrote.frame
      have there := wrote.stands
      rw [Path.place_below _ isSource.2] at there
      simp only [ran, made, true_and]
      rw [← there, ← wrote.frame.current]
      exact content?_cache (underway.disjoint.of_confined confined).apart isSource content

/-- A remaining file whose cached form is taken. -/
theorem buildFile_of_taken {text : Text}
    (taken : taken? preparation reuseAllowed source workspace = some text)
    : ∃ restored, restore preparation source (FeatureCache.cachedPath preparation.config source) workspace
          = (true, restored)
        ∧ buildFile preparation reuseAllowed source workspace = (.reused, restored)
        ∧ restored.disk.content?
            (preparation.config.outputDirectory.place workspace.disk.current ++ names)
          = some (.text text) := by
  have reads := (taken?_eq_some_iff.mp taken).2.2.2.1
  obtain ⟨written, wrote⟩ := underway.write listed member isSource
    (short_of_read_cached isSource reads) (.text text)
  have restored : restore preparation source (FeatureCache.cachedPath preparation.config source) workspace
      = (true, { workspace with disk := written }) := by
    unfold restore Disk.copy
    rw [Preparation.outputPath_of_isSource isSource, reads]
    simp only [wrote]
    rfl
  have there := (Disk.wrote_of_write wrote).stands
  rw [Path.place_below _ isSource.2] at there
  refine ⟨_, restored, ?_, there⟩
  unfold taken? at taken
  unfold buildFile
  dsimp only at taken ⊢
  split at taken
  · next allowed => rw [if_pos allowed, restored]
  · simp at taken

omit underway listed member isSource in
/-- A file whose cached form is not taken is prepared. -/
theorem buildFile_of_not_taken (taken : taken? preparation reuseAllowed source workspace = none)
    : buildFile preparation reuseAllowed source workspace = process preparation source workspace := by
  unfold taken? at taken
  unfold buildFile
  dsimp only at taken ⊢
  split at taken
  · next allowed =>
      rw [if_pos allowed]
      cases reads : workspace.disk.read (FeatureCache.cachedPath preparation.config source) with
      | ok text => simp [reads, Except.toOption] at taken
      | error cause =>
          unfold restore Disk.copy
          rw [reads]
          cases preparation.outputPath source <;> rfl
  · next refused => rw [if_neg refused]

/-- What is made of a remaining file. -/
theorem buildFile_eq_made (reuseAllowed : Bool)
    : (buildFile preparation reuseAllowed source workspace).1
        = (made (taken? preparation reuseAllowed source workspace)
            (preparation.prepared workspace.disk source)).1
      ∧ (buildFile preparation reuseAllowed source workspace).2.disk.content?
          (preparation.config.outputDirectory.place workspace.disk.current ++ names)
        = (made (taken? preparation reuseAllowed source workspace)
            (preparation.prepared workspace.disk source)).2 := by
  cases taken : taken? preparation reuseAllowed source workspace with
  | some text =>
      obtain ⟨restored, -, built, there⟩ := buildFile_of_taken underway listed member isSource taken
      rw [built]
      exact ⟨rfl, there⟩
  | none =>
      rw [buildFile_of_not_taken taken]
      exact process_eq_made underway listed member isSource

/-- A cached form that is taken is taken again. -/
theorem taken?_buildFile_self {text : Text} {entry : Entry}
    (stands : workspace.disk.entry? (source.place workspace.disk.current) = some entry)
    (taken : taken? preparation reuseAllowed source workspace = some text)
    : taken? preparation reuseAllowed source
        (buildFile preparation reuseAllowed source workspace).2 = some text := by
  obtain ⟨restored, done, built, -⟩ := buildFile_of_taken underway listed member isSource taken
  have again : taken? preparation reuseAllowed source
        (restore preparation source (FeatureCache.cachedPath preparation.config source) workspace).2
      = taken? preparation reuseAllowed source workspace :=
    taken?_restore _ underway.tree underway.disjoint isSource stands
  rw [built, ← taken, ← again, done]

end

-----------------------------------------------------------------------------------------
-- What is made of all files
-----------------------------------------------------------------------------------------

/-- A source that stands, and that building files leaves as it is with all that preparing it reads. -/
structure Steady (preparation : Preparation) (source : Path) (workspace : Workspace) : Prop where
  stands : workspace.disk.entry? (source.place workspace.disk.current) ≠ none
  spared : ∀ place, preparation.Reads workspace.disk source place →
    (filesTerritory preparation.config workspace).Spares workspace.disk place

/-- Changes where files are built leave such a source and its prepared form. -/
theorem Steady.of_confined {later : Workspace} (steady : Steady preparation source workspace)
    (disjoint : preparation.config.Disjoint workspace)
    (isSource : preparation.config.IsSource source names)
    (confined : Command.Confined (filesTerritory preparation.config workspace) workspace later)
    : Steady preparation source later
      ∧ preparation.prepared later.disk source = preparation.prepared workspace.disk source := by
  have agree := confined.frame.agree.mono steady.spared
  refine ⟨⟨?_, fun place reads => ?_⟩, Preparation.prepared_of_agree agree⟩
  · have beside := ((filesWithinBuild _ workspace).beside
      (beside_authored disjoint (Or.inl rfl))).lower (List.prefix_append _ names)
    rw [← Path.place_along _ isSource.2, ← isSource.1] at beside
    rw [confined.frame.current]
    exact confined.frame.stands_of_beside beside steady.stands
  · rw [Preparation.reads_of_agree agree] at reads
    rw [stable_filesTerritory preparation.config _ _ _ confined]
    exact confined.frame.spares_kept (steady.spared place reads)

/-- Building a file changes nothing that the others depend on. -/
theorem same_of_buildFile (allowed : Bool) {rest : List Path} {other : Path}
    (listed : Listed preparation.config sources)
    (underway : Underway preparation.config sources (source :: rest) workspace)
    (steady : Steady preparation other workspace) (member : other ∈ sources) (differ : other ≠ source)
    (dated : Dated workspace.disk.clock
      (buildFile preparation reuseAllowed source workspace).2.disk.clock)
    : taken? preparation allowed other (buildFile preparation reuseAllowed source workspace).2
          = taken? preparation allowed other workspace
        ∧ preparation.prepared (buildFile preparation reuseAllowed source workspace).2.disk other
          = preparation.prepared workspace.disk other := by
  have first := underway.subset (List.mem_cons_self ..)
  obtain ⟨names, isSource⟩ := listed.isSource source first
  obtain ⟨others, isOther⟩ := listed.isSource other member
  obtain ⟨entry, stands⟩ := Option.ne_none_iff_exists'.mp steady.stands
  have within := (confined_buildFile reuseAllowed workspace isSource).mono
    (fileWithinFiles isSource.2 preparation.config workspace)
  exact ⟨taken?_buildFile listed member first differ isOther isSource underway.tree underway.disjoint
      stands dated,
    (steady.of_confined underway.disjoint isOther within).2⟩

/-- The clock goes on while files are built. -/
theorem clocks_buildFiles {rest : List Path} (reuseAllowed : Bool) (listed : Listed preparation.config sources)
    (underway : Underway preparation.config sources (source :: rest) workspace)
    : workspace.disk.clock ≤ (buildFile preparation reuseAllowed source workspace).2.disk.clock
      ∧ (buildFile preparation reuseAllowed source workspace).2.disk.clock
        ≤ (buildFiles preparation reuseAllowed (source :: rest) workspace).2.disk.clock := by
  obtain ⟨names, isSource⟩ := listed.isSource source (underway.subset (List.mem_cons_self ..))
  have areOthers : ∀ other ∈ rest, ∃ names, preparation.config.IsSource other names :=
    fun other member => listed.isSource other (underway.subset (List.mem_cons_of_mem _ member))
  exact ⟨(confined_buildFile reuseAllowed workspace isSource).frame.clock,
    (confined_buildFiles reuseAllowed _ areOthers).frame.clock⟩

/-- What is made of a remaining file when all are built, by induction on these: the files before it leave
what it depends on, and the files after it leave its output.
-/
theorem made_of_buildFiles (listed : Listed preparation.config sources)
    (underway : Underway preparation.config sources remaining workspace)
    (steady : Steady preparation source workspace) (member : source ∈ remaining)
    (isSource : preparation.config.IsSource source names)
    (dated : Dated workspace.disk.clock
      (buildFiles preparation reuseAllowed remaining workspace).2.disk.clock)
    : (source, (made (taken? preparation reuseAllowed source workspace)
          (preparation.prepared workspace.disk source)).1)
        ∈ (buildFiles preparation reuseAllowed remaining workspace).1
      ∧ (buildFiles preparation reuseAllowed remaining workspace).2.disk.content?
          (preparation.config.outputDirectory.place workspace.disk.current ++ names)
        = (made (taken? preparation reuseAllowed source workspace)
            (preparation.prepared workspace.disk source)).2 := by
  induction remaining generalizing workspace with
  | nil => exact absurd member List.not_mem_nil
  | cons other rest ih =>
      obtain ⟨absent, -⟩ := List.nodup_cons.mp underway.once
      obtain ⟨others, isOther⟩ := listed.isSource other (underway.subset (List.mem_cons_self ..))
      have areRest : ∀ later ∈ rest, ∃ names, preparation.config.IsSource later names :=
        fun later inRest => listed.isSource later (underway.subset (List.mem_cons_of_mem _ inRest))
      have next := underway.step listed reuseAllowed
      have confined := confined_buildFile reuseAllowed workspace isOther
      have restConfined := confined_buildFiles reuseAllowed
        (buildFile preparation reuseAllowed other workspace).2 areRest
      obtain ⟨early, late⟩ := clocks_buildFiles reuseAllowed listed underway
      rcases List.mem_cons.mp member with rfl | inRest
      · obtain ⟨outcome, there⟩ := buildFile_eq_made underway listed member isSource reuseAllowed
        have outside := (outside_of_not_mem next.disjoint.apart isSource absent).2
        rw [confined.frame.current] at outside
        rw [← outcome]
        exact ⟨List.mem_cons_self .., (restConfined.frame.content?_kept outside).trans there⟩
      · have differ : source ≠ other := fun same => absent (same ▸ inRest)
        obtain ⟨taken, prepared⟩ := same_of_buildFile reuseAllowed listed underway steady
          (underway.subset member) differ (dated.mono le_rfl late)
        have steadyNext := (steady.of_confined underway.disjoint isSource
          (confined.mono (fileWithinFiles isOther.2 preparation.config workspace))).1
        obtain ⟨isBuilt, there⟩ := ih next steadyNext inRest (dated.mono early le_rfl)
        rw [taken, prepared] at isBuilt there
        rw [confined.frame.current] at there
        exact ⟨List.mem_cons_of_mem _ isBuilt, there⟩

/-- A cached form that is taken is taken again after files were built, by induction on these. -/
theorem taken?_of_taken {text : Text} (listed : Listed preparation.config sources)
    (underway : Underway preparation.config sources remaining workspace)
    (steady : Steady preparation source workspace) (member : source ∈ sources)
    (dated : Dated workspace.disk.clock
      (buildFiles preparation reuseAllowed remaining workspace).2.disk.clock)
    (taken : taken? preparation reuseAllowed source workspace = some text)
    : taken? preparation reuseAllowed source (buildFiles preparation reuseAllowed remaining workspace).2
        = some text := by
  induction remaining generalizing workspace with
  | nil => exact taken
  | cons other rest ih =>
      obtain ⟨names, isSource⟩ := listed.isSource source member
      obtain ⟨others, isOther⟩ := listed.isSource other (underway.subset (List.mem_cons_self ..))
      have confined := confined_buildFile reuseAllowed workspace isOther
      obtain ⟨early, late⟩ := clocks_buildFiles reuseAllowed listed underway
      have steadyNext := (steady.of_confined underway.disjoint isSource
        (confined.mono (fileWithinFiles isOther.2 preparation.config workspace))).1
      have takenNext : taken? preparation reuseAllowed source
          (buildFile preparation reuseAllowed other workspace).2 = some text := by
        by_cases same : source = other
        · subst same
          obtain ⟨entry, stands⟩ := Option.ne_none_iff_exists'.mp steady.stands
          exact taken?_buildFile_self underway listed (List.mem_cons_self ..) isSource stands taken
        · rw [← taken]
          exact (same_of_buildFile reuseAllowed listed underway steady member same (dated.mono le_rfl late)).1
      exact ih (underway.step listed reuseAllowed) steadyNext (dated.mono early le_rfl) takenNext

/-- What building some files has led to: the outcome and the output of every file are what is made of it
from the start, and a cached form that was taken is taken again.
-/
structure AllMade (preparation : Preparation) (reuseAllowed : Bool) (sources remaining : List Path)
    (before : Workspace) (built : List (Path × FileOutcome) × Workspace)
    : Prop where
  outcomes : built.1 = remaining.map fun source =>
    (source, (made (taken? preparation reuseAllowed source before)
      (preparation.prepared before.disk source)).1)
  outputs : ∀ source ∈ remaining, ∀ names, preparation.config.IsSource source names →
    built.2.disk.content? (preparation.config.outputDirectory.place before.disk.current ++ names)
      = (made (taken? preparation reuseAllowed source before)
          (preparation.prepared before.disk source)).2
  taken : ∀ source ∈ sources, ∀ text, taken? preparation reuseAllowed source before = some text →
    taken? preparation reuseAllowed source built.2 = some text

/-- A file that is listed once has one outcome. -/
theorem outcome_unique {files : List (Path × FileOutcome)} {first second : FileOutcome}
    (once : (files.map Prod.fst).Nodup) (left : (source, first) ∈ files) (right : (source, second) ∈ files)
    : first = second :=
  congrArg Prod.snd (List.inj_on_of_nodup_map once left right rfl)

/-- Files with outcomes that depend on themselves alone are these outcomes of the files. -/
theorem eq_map_of_forall {files : List (Path × FileOutcome)} {make : Path → FileOutcome}
    (each : ∀ {source result}, (source, result) ∈ files → result = make source)
    : files = (files.map Prod.fst).map fun source => (source, make source) := by
  rw [List.map_map]
  exact (List.map_id' _).symm.trans (List.map_congr_left fun file isBuilt =>
    congrArg (Prod.mk file.1) (each isBuilt))

/-- Building files makes of every file what is made of it alone. -/
theorem allMade_buildFiles (listed : Listed preparation.config sources)
    (underway : Underway preparation.config sources remaining workspace)
    (steady : ∀ source ∈ sources, Steady preparation source workspace)
    (dated : Dated workspace.disk.clock
      (buildFiles preparation reuseAllowed remaining workspace).2.disk.clock)
    : AllMade preparation reuseAllowed sources remaining workspace
        (buildFiles preparation reuseAllowed remaining workspace) := by
  have each (source : Path) (member : source ∈ remaining) (names : List Text)
      (isSource : preparation.config.IsSource source names) :=
    made_of_buildFiles listed underway (steady source (underway.subset member)) member isSource dated
  have once : ((buildFiles preparation reuseAllowed remaining workspace).1.map Prod.fst).Nodup := by
    rw [map_fst_buildFiles]
    exact underway.once
  have outcome {source : Path} {result : FileOutcome}
      (isBuilt : (source, result) ∈ (buildFiles preparation reuseAllowed remaining workspace).1)
      : result = (made (taken? preparation reuseAllowed source workspace)
          (preparation.prepared workspace.disk source)).1 := by
    have member : source ∈ remaining := by
      rw [← map_fst_buildFiles preparation reuseAllowed remaining workspace]
      exact List.mem_map_of_mem isBuilt
    obtain ⟨names, isSource⟩ := listed.isSource source (underway.subset member)
    exact outcome_unique once isBuilt (each source member names isSource).1
  refine ⟨?_, fun source member names isSource => (each source member names isSource).2,
    fun source member text => taken?_of_taken listed underway (steady source member) member dated⟩
  have outcomes := eq_map_of_forall outcome
  rwa [map_fst_buildFiles] at outcomes

end FeaturePress.Build
