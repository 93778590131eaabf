import FeaturePress.Proofs.Project.Repeat

/-! Building a second time when nothing has changed. The second build finds the step groups fresh and
prepares every file as the first one did, but it takes cached forms that the first one did not take. So it
gives the same failures and the same output tree exactly when none of these is outdated.
-/

namespace FeaturePress.Build

section

variable {config : Config} {value : Text → Text} {force reuseAllowed : Bool}
  {before refreshed created after : Workspace} {refresh : Refresh} {outcome : BuildOutcome}
  {found : List Path} {files : List (Path × FileOutcome)} {source : Path} {names : List Text}

-----------------------------------------------------------------------------------------
-- Builds that are done
-----------------------------------------------------------------------------------------

theorem provenance_process (preparation : Preparation) (source : Path) (workspace : Workspace)
    : (process preparation source workspace).2.provenance = workspace.provenance := by
  unfold process
  split
  · unfold cache
    split <;> rfl
  · rfl

theorem provenance_restore (preparation : Preparation) (source cached : Path) (workspace : Workspace)
    : (restore preparation source cached workspace).2.provenance = workspace.provenance := by
  unfold restore
  split <;> rfl

theorem provenance_buildFile (preparation : Preparation) (reuseAllowed : Bool) (source : Path)
    (workspace : Workspace)
    : (buildFile preparation reuseAllowed source workspace).2.provenance = workspace.provenance := by
  have kept := provenance_restore preparation source
    (FeatureCache.cachedPath preparation.config source) workspace
  rcases buildFile_cases preparation reuseAllowed source workspace with
    ⟨restored, -, -, taken, built⟩ | ⟨restored, missed, built⟩ | built
  · rw [built, ← kept, taken]
  · rw [built, provenance_process, ← kept, missed]
  · rw [built, provenance_process]

/-- Building files keeps the record of times, by induction on the files. -/
theorem provenance_buildFiles (preparation : Preparation) (reuseAllowed : Bool) (sources : List Path)
    (workspace : Workspace)
    : (buildFiles preparation reuseAllowed sources workspace).2.provenance = workspace.provenance := by
  induction sources generalizing workspace with
  | nil => rfl
  | cons source rest ih => exact (ih _).trans (provenance_buildFile ..)

/-- A build that had begun and is done: of every file was made what is made of it alone, and nothing but
the files was changed.
-/
structure Done (config : Config) (value : Text → Text) (reuseAllowed : Bool) (found : List Path)
    (created : Workspace) (files : List (Path × FileOutcome)) (after : Workspace)
    : Prop where
  begun : Begun config value found created
  made : AllMade (preparationOn created.disk config value) reuseAllowed found found created (files, after)
  confined : Command.Confined (sourcesTerritory config found created) created after
  grows : Disk.Grows (sourcesTerritory config found created).Changes created.disk after.disk
  provenance : after.provenance = created.provenance

theorem Begun.done (begun : Begun config value found created)
    (built : buildFiles (preparationOn created.disk config value) reuseAllowed found created
      = (files, after))
    (dated : Dated created.disk.clock after.disk.clock)
    : Done config value reuseAllowed found created files after := by
  let preparation := preparationOn created.disk config value
  have areSources : ∀ source ∈ found, ∃ names, preparation.config.IsSource source names :=
    begun.listed.isSource
  have made : AllMade preparation reuseAllowed found found created
      (buildFiles preparation reuseAllowed found created) :=
    allMade_buildFiles begun.listed begun.underway (fun source member => begun.steady _ member)
      (by rw [built]; exact dated)
  have confined := confined_buildFiles reuseAllowed created areSources
  have grows := grows_buildFiles reuseAllowed created areSources
  have provenance := provenance_buildFiles (preparationOn created.disk config value) reuseAllowed found
    created
  rw [built] at made confined grows provenance
  exact ⟨begun, made, confined, grows, provenance⟩

/-- A build that gets ready in a sound project begins. -/
theorem begun_of_ready (sound : Sound config value found before)
    (got : ready config force before = .ok (refresh, found) created)
    : ∃ refreshed, Refresh.run config.stepGroups force before = .ok refresh refreshed
        ∧ Sound config value found refreshed
        ∧ refreshed.disk.featureFiles config.featuresDirectory [config.stepGroups.sourceDirectory]
          = .ok found
        ∧ Disk.Frame (resetTerritory config refreshed) refreshed.disk created.disk
        ∧ created = { refreshed with disk := created.disk }
        ∧ Begun config value found created := by
  obtain ⟨refreshed, emptied, -, ran, listing, removed, made, same⟩ := ready_eq_ok got
  have soundRefreshed := (sound.of_refresh ran).2
  have begun := Begun.of_reset soundRefreshed listing removed made
  rw [← same] at begun
  exact ⟨refreshed, ran, soundRefreshed, listing, frame_reset removed made, same, begun⟩

namespace Done

/-- The files below the output directory are outputs of the files that were built. -/
theorem source_of_output (done : Done config value reuseAllowed found created files after)
    {content : Content}
    (stands : after.disk.content? (config.outputDirectory.place after.disk.current ++ names)
      = some content)
    : ∃ source ∈ found, config.IsSource source names := by
  rw [done.grows.current] at stands
  obtain ⟨entry, standing, hasContent⟩ := Disk.content?_eq_some_iff.mp stands
  have isFile := Entry.isDirectory_of_content? hasContent
  obtain ⟨⟨top, standsTop, isDirectory, -⟩, -, vacant⟩ := done.begun.renewed.shape
  have nonempty : names ≠ [] := by
    rintro rfl
    obtain ⟨later, standsLater, isLater, -⟩ := done.grows.directory standsTop isDirectory
    rw [List.append_nil] at standing
    obtain rfl := Option.some.inj (standing.symm.trans standsLater)
    simp [isLater] at isFile
  have absent := vacant (config.outputDirectory.place created.disk.current ++ names)
    (List.prefix_append _ _) (by simp [nonempty])
  obtain ⟨isNew, -⟩ := done.grows.new _ entry absent standing
  obtain ⟨source, member, others, isSource, same⟩ := output_of_changes done.begun.sound.disjoint
    (List.prefix_append _ _) (isNew.file isFile)
  obtain rfl := List.append_cancel_left same
  exact ⟨source, member, isSource⟩

/-- A build that is done has changed the files only. -/
theorem within (done : Done config value reuseAllowed found created files after)
    : Command.Confined (filesTerritory config created) created after :=
  done.confined.mono (sourcesWithinFiles config found created)

theorem isTree (done : Done config value reuseAllowed found created files after)
    : after.disk.IsTree :=
  isTree_of_grows done.begun.sound.tree done.grows done.confined.frame
    (isProper_sourcesTerritory done.begun.sound.tree.proper _ _)

theorem sound (done : Done config value reuseAllowed found created files after)
    : Sound config value found after :=
  done.begun.sound.of_confined (done.within.mono (filesWithinBuild config created)) done.isTree

/-- What files are prepared with stays. -/
theorem preparationOn_eq (done : Done config value reuseAllowed found created files after)
    : preparationOn after.disk config value = preparationOn created.disk config value := by
  have disjoint := done.begun.sound.disjoint
  unfold preparationOn
  rw [Catalog.loadOrEmpty_congr fun text => done.within.frame.read_iff_of_clears done.begun.sound.tree
    (disjoint.down_document (by simp [documentPaths])) (beside_document disjoint (by simp)).2.clears]

/-- A file that was built would be prepared as before. -/
theorem prepared_eq (done : Done config value reuseAllowed found created files after)
    (member : source ∈ found)
    : (preparationOn after.disk config value).prepared after.disk source
        = (preparationOn created.disk config value).prepared created.disk source := by
  obtain ⟨names, isSource⟩ := done.begun.listed.isSource source member
  rw [done.preparationOn_eq]
  have steady : Steady (preparationOn created.disk config value) source created :=
    done.begun.steady _ member
  exact (steady.of_confined done.begun.sound.disjoint isSource done.within).2

/-- A file that was built stands. -/
theorem stands (done : Done config value reuseAllowed found created files after)
    (member : source ∈ found)
    : ∃ entry, after.disk.entry? (source.place after.disk.current) = some entry := by
  rw [done.grows.current]
  exact Option.ne_none_iff_exists'.mp (done.grows.stands (done.begun.stands source member))

/-- What a file's output is after the build. -/
theorem output (done : Done config value reuseAllowed found created files after)
    (member : source ∈ found) (isSource : config.IsSource source names)
    : after.disk.content? (config.outputDirectory.place after.disk.current ++ names)
        = (Build.made (taken? (preparationOn created.disk config value) reuseAllowed source created)
            ((preparationOn created.disk config value).prepared created.disk source)).2 := by
  rw [done.grows.current]
  exact done.made.outputs source member names isSource

end Done

/-- Two builds of the same files that make the same of each leave the same output tree. -/
theorem outputs_eq_iff {reuseFirst : Bool} {createdFirst first : Workspace}
    {firstFiles : List (Path × FileOutcome)}
    (doneFirst : Done config value reuseFirst found createdFirst firstFiles first)
    (done : Done config value reuseAllowed found created files after)
    : (∀ names, after.disk.content? (config.outputDirectory.place after.disk.current ++ names)
        = first.disk.content? (config.outputDirectory.place first.disk.current ++ names))
      ↔ ∀ source ∈ found,
          (made (taken? (preparationOn created.disk config value) reuseAllowed source created)
            ((preparationOn created.disk config value).prepared created.disk source)).2
          = (made (taken? (preparationOn createdFirst.disk config value) reuseFirst source createdFirst)
            ((preparationOn createdFirst.disk config value).prepared createdFirst.disk source)).2 := by
  constructor
  · intro same source member
    obtain ⟨names, isSource⟩ := done.begun.listed.isSource source member
    rw [← done.output member isSource, same names, doneFirst.output member isSource]
  · intro same names
    by_cases known : ∃ source ∈ found, config.IsSource source names
    · obtain ⟨source, member, isSource⟩ := known
      rw [done.output member isSource, doneFirst.output member isSource, same source member]
    · -- neither tree has anything else
      have absent {enabled : Bool} {start last : Workspace} {built : List (Path × FileOutcome)}
          (isDone : Done config value enabled found start built last)
          : last.disk.content? (config.outputDirectory.place last.disk.current ++ names) = none :=
        Option.eq_none_iff_forall_ne_some.mpr fun content stands =>
          known (isDone.source_of_output stands)
      rw [absent done, absent doneFirst]

-----------------------------------------------------------------------------------------
-- The second build
-----------------------------------------------------------------------------------------

/-- The steps of getting ready one after the other. -/
theorem ready_of_steps {emptied disk : Disk} (valid : config.validate = .ok ())
    (ran : Refresh.run config.stepGroups force before = .ok refresh refreshed)
    (listing : refreshed.disk.featureFiles config.featuresDirectory [config.stepGroups.sourceDirectory]
      = .ok found)
    (removed : refreshed.disk.removeTree config.outputDirectory = (.ok (), emptied))
    (made : emptied.createDirectories config.outputDirectory = (.ok (), disk))
    : ready config force before = .ok (refresh, found) { refreshed with disk } := by
  simp [ready, resetOutput, Command.require, Command.look, Command.change, valid, ran, listing, removed,
    made, bind, EStateM.bind, pure, EStateM.pure]

/-- After a build of a sound project that has succeeded the next one begins: it finds the step groups fresh
and lists the same files.
-/
theorem exists_next (sound : Sound config value (outcome.files.map Prod.fst) before)
    (keeps : Refresh.KeepsRecord before) (ran : run config value force before = .ok outcome after)
    (dated : Dated before.disk.clock after.disk.clock)
    : ∃ created disk, ready config force before = .ok (outcome.refresh, outcome.files.map Prod.fst) created
        ∧ Done config value (allowsReuse config force outcome.refresh)
          (outcome.files.map Prod.fst) created outcome.files after
        ∧ ready config false after = .ok (.fresh, outcome.files.map Prod.fst) { after with disk }
        ∧ Begun config value (outcome.files.map Prod.fst) { after with disk }
        ∧ Disk.Frame (resetTerritory config after) after.disk disk := by
  obtain ⟨found, created, got, built⟩ := run_eq_ok ran
  have listed : outcome.files.map Prod.fst = found := by
    rw [← map_fst_buildFiles (preparationOn created.disk config value)
      (allowsReuse config force outcome.refresh) found created, built]
  rw [listed] at sound ⊢
  obtain ⟨refreshed, refreshRan, soundRefreshed, listing, reset, same, begun⟩ := begun_of_ready sound got
  obtain ⟨-, -, valid, -⟩ := ready_eq_ok got
  have clock : before.disk.clock ≤ created.disk.clock :=
    ((Refresh.confined_run config.stepGroups force before).ofOk refreshRan).frame.clock.trans reset.clock
  have done := begun.done built (dated.mono clock le_rfl)
  -- from the refresh on only the output tree and the files were changed
  have resetConfined : Command.Confined (resetTerritory config refreshed) refreshed created :=
    same ▸ .ofFrame reset
  have stable := stable_filesTerritory config _ _ _ resetConfined
  have frame : Disk.Frame ((resetTerritory config refreshed).union (filesTerritory config refreshed))
      refreshed.disk after.disk :=
    (reset.mono (Disk.Territory.within_union_left _ _)).trans
      ((stable ▸ done.within.frame).mono (Disk.Territory.within_union_right _ _))
  have disjoint := soundRefreshed.disjoint
  have besideAuthored (place : Location)
      (isAuthored : place = config.featuresDirectory.place refreshed.disk.current
        ∨ place = config.stepGroups.sourceDirectory.place refreshed.disk.current)
      : ((resetTerritory config refreshed).union (filesTerritory config refreshed)).Beside place :=
    ((resetWithinBuild config refreshed).beside (beside_authored disjoint isAuthored)).union
      ((filesWithinBuild config refreshed).beside (beside_authored disjoint isAuthored))
  have fresh : Refresh.run config.stepGroups false after = .ok .fresh after := by
    refine Refresh.fresh_of_beside sound.tree (sound.tree.direct ?_) sound.disjoint.placed keeps refreshRan
      soundRefreshed.tree frame ?_ ?_
    · exact sound.disjoint.down _ (by simp)
    · intro path isRead
      rcases List.mem_cons.mp isRead with rfl | isArtifact
      · exact ⟨disjoint.down _ (by simp), besideAuthored _ (Or.inr rfl)⟩
      · obtain ⟨first, second⟩ := beside_document disjoint (List.mem_append_left _ isArtifact)
        exact ⟨disjoint.down_document (List.mem_append_left _ (List.mem_append_left _ isArtifact)),
          first.union second⟩
    · rw [done.provenance, same]
      refine Store.loadUsable_congr fun path isRecord text => ?_
      have isDocument : path ∈ [config.stepGroups.catalog, config.stepGroups.bindings]
          ++ refreshed.provenance.file?.toList := by simp [isRecord]
      obtain ⟨first, second⟩ := beside_document disjoint isDocument
      exact frame.read_iff_of_clears soundRefreshed.tree
        (disjoint.down_document (List.mem_append_left _ isDocument)) (first.union second).clears
  have relisting := frame.featureFiles_of_beside soundRefreshed.tree (disjoint.down _ (by simp))
    (besideAuthored _ (Or.inl rfl)) [config.stepGroups.sourceDirectory]
  obtain ⟨emptied, disk, removed, made, -⟩ :=
    done.begun.renewed.again done.grows done.isTree done.sound.disjoint.down_output
  exact ⟨created, disk, got, done, ready_of_steps valid fresh (relisting.trans listing) removed made,
    Begun.of_reset done.sound (relisting.trans listing) removed made, frame_reset removed made⟩

-----------------------------------------------------------------------------------------
-- What the second build makes
-----------------------------------------------------------------------------------------

/-- A cached form that a build would take is not what its source is prepared to. -/
def IsOutdated (config : Config) (value : Text → Text) (workspace : Workspace) (source : Path) : Prop :=
  ∃ text, taken? (preparationOn workspace.disk config value) true source workspace = some text
    ∧ (preparationOn workspace.disk config value).prepared workspace.disk source ≠ .ok text

/-- What becomes of the files. -/
theorem Done.outcomes (done : Done config value reuseAllowed found created files after)
    : files = found.map fun source => (source,
        (Build.made (taken? (preparationOn created.disk config value) reuseAllowed source created)
          ((preparationOn created.disk config value).prepared created.disk source)).1) :=
  done.made.outcomes

/-- A file is reused exactly when its cached form is taken. -/
theorem Done.reused_iff (done : Done config value reuseAllowed found created files after)
    (member : source ∈ found)
    : (source, .reused) ∈ files
        ↔ taken? (preparationOn created.disk config value) reuseAllowed source created ≠ none := by
  rw [done.outcomes, List.mem_map]
  constructor
  · rintro ⟨other, -, same⟩ absent
    obtain ⟨rfl, reused⟩ := Prod.mk.inj same
    rw [absent] at reused
    unfold Build.made at reused
    split at reused <;> simp_all
  · intro taken
    obtain ⟨text, taken⟩ := Option.ne_none_iff_exists'.mp taken
    exact ⟨source, member, by rw [taken]; rfl⟩

/-- A cached form that was taken would be taken again. -/
theorem Done.taken_again (done : Done config value reuseAllowed found created files after)
    (member : source ∈ found) {text : Text}
    (taken : taken? (preparationOn created.disk config value) reuseAllowed source created = some text)
    : taken? (preparationOn after.disk config value) true source after = some text :=
  taken?_eq_some_iff.mpr
    ⟨rfl, (taken?_eq_some_iff.mp (done.made.taken source member text taken)).2⟩

/-- Of a file whose cached form is not outdated the next build makes the same, or it takes the form where
the first build has prepared its text.
-/
theorem Done.same_or_taken {allowed : Bool} {next : Workspace}
    (done : Done config value reuseAllowed found created files after) (member : source ∈ found)
    (taken : taken? (preparationOn next.disk config value) allowed source next
      = taken? (preparationOn after.disk config value) true source after)
    (prepared : (preparationOn next.disk config value).prepared next.disk source
      = (preparationOn created.disk config value).prepared created.disk source)
    (current : taken? (preparationOn created.disk config value) reuseAllowed source created = none →
      ¬ IsOutdated config value after source)
    : Build.made (taken? (preparationOn next.disk config value) allowed source next)
          ((preparationOn next.disk config value).prepared next.disk source)
        = Build.made (taken? (preparationOn created.disk config value) reuseAllowed source created)
          ((preparationOn created.disk config value).prepared created.disk source)
      ∨ ∃ text, taken? (preparationOn next.disk config value) allowed source next = some text
          ∧ taken? (preparationOn created.disk config value) reuseAllowed source created = none
          ∧ (preparationOn created.disk config value).prepared created.disk source = .ok text := by
  rw [prepared, taken]
  cases early : taken? (preparationOn created.disk config value) reuseAllowed source created with
  | some text => exact Or.inl (by rw [done.taken_again member early])
  | none =>
      cases late : taken? (preparationOn after.disk config value) true source after with
      | none => exact Or.inl rfl
      | some text =>
          refine Or.inr ⟨text, rfl, rfl, ?_⟩
          by_contra differ
          exact current early ⟨text, late, done.prepared_eq member ▸ differ⟩

/-- A file that has not failed is none of the failures. -/
theorem failure_eq_none {outcome : FileOutcome} (differ : ∀ error, outcome ≠ .failed error)
    : (match outcome with
        | .failed error => some (source, BuildOutcome.reason error)
        | _ => none) = none := by
  cases outcome with
  | failed error => exact absurd rfl (differ error)
  | processed | reused => rfl

/-- Where as much as failed fails for the same reasons, two builds have the same failures. -/
theorem failed_congr {first second : BuildOutcome} {early late : Path → FileOutcome}
    (earlier : first.files = found.map fun source => (source, early source))
    (later : second.files = found.map fun source => (source, late source))
    (same : ∀ source ∈ found, late source = early source
      ∨ ∀ error, early source ≠ .failed error ∧ late source ≠ .failed error)
    : second.failed = first.failed := by
  unfold BuildOutcome.failed
  rw [earlier, later, List.filterMap_map, List.filterMap_map]
  refine List.filterMap_congr fun source member => ?_
  rcases same source member with same | neither
  · simp [same]
  · exact (failure_eq_none fun error => (neither error).2).trans
      (failure_eq_none fun error => (neither error).1).symm

/-- Taking a cached form makes the same as preparing the file exactly when it is the prepared text. -/
theorem made_some_eq_iff {text : Text} {prepared : Except PrepareError Text}
    : (made (some text) prepared).2 = (made none prepared).2 ↔ prepared = .ok text := by
  cases prepared with
  | ok content => simp [made, eq_comm]
  | error error => simp [made]

/-- Making the output tree anew leaves what files are prepared to. -/
theorem prepared_of_reset {disk : Disk} (sound : Sound config value found after)
    (reset : Disk.Frame (resetTerritory config after) after.disk disk) (member : source ∈ found)
    : (preparationOn disk config value).prepared disk source
        = (preparationOn after.disk config value).prepared after.disk source := by
  have catalog : Catalog.loadOrEmpty disk config.stepGroups.catalog
      = Catalog.loadOrEmpty after.disk config.stepGroups.catalog :=
    Catalog.loadOrEmpty_congr fun text => reset.read_iff_of_clears sound.tree
      (sound.disjoint.down_document (by simp [documentPaths]))
      (beside_document sound.disjoint (by simp)).1.clears
  unfold preparationOn
  rw [catalog]
  exact preparedUnder_of_agree _ ((reset.mono (resetWithinBuild config after)).agree.mono
    (sound.spared source member))

/-- The next build takes the cached forms that would be taken before it. -/
theorem Done.taken?_next {disk : Disk}
    (done : Done config value reuseAllowed found created files after)
    (reset : Disk.Frame (resetTerritory config after) after.disk disk) (member : source ∈ found)
    : taken? (preparationOn disk config value) (allowsReuse config false .fresh) source { after with disk }
        = taken? (preparationOn after.disk config value) true source after := by
  obtain ⟨names, isSource⟩ := done.begun.listed.isSource source member
  obtain ⟨entry, stands⟩ := done.stands member
  have kept : taken? (preparationOn disk config value) (allowsReuse config false .fresh) source
        { after with disk }
      = taken? (preparationOn disk config value) (allowsReuse config false .fresh) source after :=
    taken?_of_reset reset done.isTree done.sound.disjoint isSource stands
  refine kept.trans (Option.ext fun text => ?_)
  rw [taken?_eq_some_iff, taken?_eq_some_iff]
  simp [allowsReuse, Refresh.isRegenerated, preparationOn]

/-- After a build of a sound project the next one succeeds, finds the step groups fresh and lists the same
files. It gives the same failures and the same output tree exactly when none of the cached forms that
it takes anew is outdated.
-/
theorem second_build_eq_iff {first : BuildOutcome} {middle : Workspace}
    (sound : Sound config value (first.files.map Prod.fst) before)
    (keeps : Refresh.KeepsRecord before) (ran : run config value force before = .ok first middle)
    (dated : Dated before.disk.clock middle.disk.clock)
    : ∃ second last, run config value false middle = .ok second last ∧ second.refresh = .fresh
        ∧ second.files.map Prod.fst = first.files.map Prod.fst
        ∧ (Dated middle.disk.clock last.disk.clock →
          ((second.failed = first.failed
              ∧ ∀ names, last.disk.content? (config.outputDirectory.place last.disk.current ++ names)
                = middle.disk.content? (config.outputDirectory.place middle.disk.current ++ names))
            ↔ ∀ source ∈ first.files.map Prod.fst, source ∉ first.reused →
                ¬ IsOutdated config value middle source)) := by
  obtain ⟨created, disk, -, done, got, begun, reset⟩ := exists_next sound keeps ran dated
  let next : Workspace := { middle with disk }
  let built := buildFiles (preparationOn disk config value) (allowsReuse config false .fresh)
    (first.files.map Prod.fst) next
  have ranAgain : run config value false middle = .ok ⟨.fresh, built.1⟩ built.2 := by
    rw [run_eq, got]
  refine ⟨⟨.fresh, built.1⟩, built.2, ranAgain, rfl, map_fst_buildFiles .., fun datedLast => ?_⟩
  have doneNext : Done config value (allowsReuse config false .fresh) (first.files.map Prod.fst) next
      built.1 built.2 :=
    begun.done rfl (datedLast.mono reset.clock le_rfl)
  -- what is taken and prepared in the second build is what would be in its workspace before
  have taken (source : Path) (member : source ∈ first.files.map Prod.fst)
      : taken? (preparationOn disk config value) (allowsReuse config false .fresh) source next
        = taken? (preparationOn middle.disk config value) true source middle :=
    done.taken?_next reset member
  have prepared (source : Path) (member : source ∈ first.files.map Prod.fst)
      : (preparationOn disk config value).prepared disk source
        = (preparationOn created.disk config value).prepared created.disk source :=
    (prepared_of_reset done.sound reset member).trans (done.prepared_eq member)
  have notReused (source : Path) (member : source ∈ first.files.map Prod.fst)
      : source ∉ first.reused
        ↔ taken? (preparationOn created.disk config value) (allowsReuse config force first.refresh) source
            created = none := by
    rw [mem_reused_iff, done.reused_iff member, not_not]
  constructor
  · rintro ⟨-, same⟩ source member absent ⟨text, takes, differ⟩
    have equal := (outputs_eq_iff done doneNext).mp same source member
    rw [taken source member, takes, prepared source member, (notReused source member).mp absent,
      made_some_eq_iff] at equal
    exact differ ((done.prepared_eq member).trans equal)
  · intro current
    have each (source : Path) (member : source ∈ first.files.map Prod.fst) :=
      done.same_or_taken member (taken source member) (prepared source member) fun absent =>
        current source member ((notReused source member).mpr absent)
    refine ⟨failed_congr done.outcomes doneNext.outcomes fun source member => ?_,
      (outputs_eq_iff done doneNext).mpr fun source member => ?_⟩
    · rcases each source member with same | ⟨text, takes, absent, isPrepared⟩
      · exact Or.inl (congrArg Prod.fst same)
      · refine Or.inr fun error => ?_
        rw [absent, isPrepared]
        exact ⟨by simp [made], by rw [takes]; simp [made]⟩
    · rcases each source member with same | ⟨text, takes, absent, isPrepared⟩
      · exact congrArg Prod.snd same
      · rw [takes, absent]
        exact made_some_eq_iff.mpr isPrepared

end

-----------------------------------------------------------------------------------------
-- A feature whose data are edited
-----------------------------------------------------------------------------------------

/-- The instants of the first day are in range. -/
theorem dated_of_first_day {early late : Int} (lower : 0 ≤ early) (upper : late < 86400000)
    : Dated early late := by
  intro time after before
  have day : (Instant.ofMilliseconds time).seconds / 86400 = 0 := by
    unfold Instant.ofMilliseconds
    simp only
    omega
  unfold Instant.IsInRange
  rw [day]
  decide

namespace Example

/-- The example is sound. -/
theorem sound : Sound config id [source] unbuilt :=
  .of_stands (by decide +kernel) (disjoint.of_sublist rfl (by decide)) (by decide +kernel) spared

/-- A record in memory that was never saved can be kept. -/
theorem keepsRecord : Refresh.KeepsRecord unbuilt where
  loads := by simp [unbuilt]
  readable := by simp [unbuilt, Store.file?]
  complete := fun record loaded => by simp [unbuilt, Store.loadUsable, Store.load] at loaded

/-- The example is built twice on the first day. -/
theorem dated_builds
    : Dated unbuilt.disk.clock built.disk.clock
      ∧ Dated built.disk.clock (Command.left (run config id false built)).disk.clock := by
  have clocks : built.disk.clock < 86400000
      ∧ (Command.left (run config id false built)).disk.clock < 86400000 ∧ 0 ≤ built.disk.clock := by
    decide +kernel
  exact ⟨dated_of_first_day (by decide) clocks.1, dated_of_first_day clocks.2.2 clocks.2.1⟩

/-- A feature with an examples table, its data, and nothing generated yet. -/
def tabled : Workspace where
  disk := {
    entries := ⟨[([], directory), ([['f']], directory),
      ([['f'], "c.feature".toList], file "Feature:\nExamples: \x7bdatafile: 'e.csv'\x7d" 5),
      ([['f'], "e.csv".toList], file "n\n1" 5), ([['g']], directory),
      ([['g'], "a.feature".toList], file "" 5)], by decide⟩
    current := []
    clock := 100
    canOpen := true }
  provenance := .memory none 0
  metadata := .memory none 0

/-- The workspace after a build and edits: the data have lost their rows, and the step-group document is
gone.
-/
def emptied : Workspace :=
  let made := Command.left (run config id false tabled)
  { made with
    disk := (made.disk.drop [['g'], "a.feature".toList]).put [['f'], "e.csv".toList] (file "n" 200) }

end Example

set_option maxRecDepth 100000 in
/-- Witness: a second build of the example takes the cached form that the first one has made, and leaves
the same output tree.
-/
theorem second_build_eq_iff_cached_feature
    : ∃ second last, run Example.config id false Example.built = .ok second last
        ∧ second.refresh = .fresh ∧ second.failed = []
        ∧ ∀ names, last.disk.content?
              (Example.config.outputDirectory.place last.disk.current ++ names)
            = Example.built.disk.content?
              (Example.config.outputDirectory.place Example.built.disk.current ++ names) := by
  have takes : taken? (preparationOn Example.built.disk Example.config id) true Example.source
        Example.built
      = ((preparationOn Example.built.disk Example.config id).prepared Example.built.disk
          Example.source).toOption := by
    decide +kernel
  obtain ⟨first, ran, files⟩ := Example.exists_built
  have listed : first.files.map Prod.fst = [Example.source] := by simp [files]
  have failed : first.failed = [] := by simp [BuildOutcome.failed, files]
  obtain ⟨dated, datedLast⟩ := Example.dated_builds
  obtain ⟨second, last, again, fresh, -, same⟩ :=
    second_build_eq_iff (listed ▸ Example.sound) Example.keepsRecord ran dated
  rw [again, Command.left_ok] at datedLast
  obtain ⟨failures, outputs⟩ := (same datedLast).mpr
    fun source member _ ⟨text, taken, differ⟩ => by
      obtain rfl := List.mem_singleton.mp (listed ▸ member)
      rw [takes] at taken
      revert taken differ
      generalize (preparationOn Example.built.disk Example.config id).prepared Example.built.disk
        Example.source = prepared
      cases prepared with
      | ok content => simp [Except.toOption]
      | error error => simp [Except.toOption]
  exact ⟨second, last, again, fresh, failures.trans failed, outputs⟩

set_option maxRecDepth 100000 in
/-- Counterexample: after the data have lost their rows a build that reads the step groups again fails to
prepare the feature, and the next one takes the cached form that was made from the old data.
-/
theorem second_build_takes_outdated
    : (Command.value? (run Example.config id false Example.emptied)).map
          (fun outcome => (outcome.reused, outcome.failed.map Prod.fst))
        = some ([], [Example.source])
      ∧ (Command.value? (run Example.config id false
            (Command.left (run Example.config id false Example.emptied)))).map
          (fun outcome => (outcome.reused, outcome.failed.map Prod.fst))
        = some ([Example.source], []) := by
  decide +kernel

end FeaturePress.Build
