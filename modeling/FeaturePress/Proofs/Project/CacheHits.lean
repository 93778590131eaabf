import FeaturePress.Proofs.Project.SecondBuild

/-! Cached forms that are taken by the next build. A build that could cache what it has prepared leaves a
cached form of every feature, so where nothing has changed the next one prepares nothing and makes the
same output tree.
-/

namespace FeaturePress.Build

section

variable {config : Config} {preparation : Preparation} {value : Text → Text} {force reuseAllowed : Bool}
  {before created after workspace later : Workspace} {outcome : BuildOutcome} {found : List Path}
  {files : List (Path × FileOutcome)} {sources remaining : List Path} {source : Path}
  {names : List Text} {content : Text}

-----------------------------------------------------------------------------------------
-- Caching that succeeds
-----------------------------------------------------------------------------------------

/-- Whether the prepared form of a source is cached and recorded, if there is one that opens as a feature. -/
def couldCache (preparation : Preparation) (source : Path) (workspace : Workspace) : Bool :=
  match preparation.run workspace.disk source with
  | (.ok (_, content), prepared) =>
    !Opening.startsWithFeature content
      || (FeatureCache.persist preparation.config prepared workspace.metadata source content).1.isOk
  | (.error _, _) => true

/-- Whether every file was taken from the cache or could be cached. -/
def couldCacheAll (preparation : Preparation) (reuseAllowed : Bool) : List Path → Workspace → Bool
  | [], _ => true
  | source :: rest, workspace =>
    ((taken? preparation reuseAllowed source workspace).isSome || couldCache preparation source workspace)
      && couldCacheAll preparation reuseAllowed rest (buildFile preparation reuseAllowed source workspace).2

/-- Whether a build could cache all that it has prepared. -/
def cachesAll (config : Config) (value : Text → Text) (force : Bool) (before : Workspace) : Bool :=
  match ready config force before with
  | .ok (refresh, found) created =>
    couldCacheAll (preparationOn created.disk config value) (allowsReuse config force refresh) found created
  | .error _ _ => true

/-- A form that could be cached was written and recorded. -/
theorem cache_of_persist (enabled : config.featureCache.enabled = true)
    (opens : Opening.startsWithFeature content = true)
    (persists : (FeatureCache.persist config workspace.disk workspace.metadata source content).1.isOk = true)
    : ∃ written, workspace.disk.write (FeatureCache.cachedPath config source) (.text content)
          = (.ok (), written)
        ∧ (FeatureCache.record written workspace.metadata source (FeatureCache.cachedPath config source)).1
          = .ok ()
        ∧ cache config source content workspace = { workspace with
            disk := (FeatureCache.record written workspace.metadata source
              (FeatureCache.cachedPath config source)).2.1
            metadata := (FeatureCache.record written workspace.metadata source
              (FeatureCache.cachedPath config source)).2.2 } := by
  unfold cache
  unfold FeatureCache.persist at persists ⊢
  simp only [enabled, opens, Bool.not_true, Bool.false_eq_true, if_false, Bool.and_true, if_true] at persists ⊢
  rcases wrote : workspace.disk.write (FeatureCache.cachedPath config source) (.text content)
    with ⟨_ | _, written⟩
  · simp [wrote, Except.isOk, Except.toBool] at persists
  · rcases recorded : FeatureCache.record written workspace.metadata source
      (FeatureCache.cachedPath config source) with ⟨_ | _, disk, metadata⟩
    · simp [wrote, recorded, Except.isOk, Except.toBool] at persists
    · exact ⟨written, rfl, by rw [recorded], by simp [recorded]⟩

/-- A record that was saved is loaded again. -/
theorem loadUsable_of_record {cached : Path} {disk : Disk} {metadata : Store Metadata}
    (loads : ∀ saves, metadata ≠ .corrupted saves)
    (readable : ∀ path, metadata.file? = some path → disk.MayRead path)
    (inRange : (Instant.ofMilliseconds disk.tick.clock).IsInRange)
    (recorded : (FeatureCache.record disk metadata source cached).1 = .ok ())
    : (FeatureCache.record disk metadata source cached).2.2.loadUsable
          (FeatureCache.record disk metadata source cached).2.1
        = some (((metadata.loadUsable disk).getD SortedMap.empty).insert source.spelling
            ⟨cached, .ofMilliseconds disk.tick.clock⟩) := by
  unfold FeatureCache.record at recorded ⊢
  dsimp only at recorded ⊢
  rcases saved : metadata.save disk.tick _ with ⟨_, written, last⟩
  rw [saved] at recorded
  obtain rfl := recorded
  exact Store.loadUsable_of_save saved
    (fun path isRecord => readsBack_recorded isRecord disk source cached inRange) loads
    fun path entry isRecord stands => readable path isRecord entry stands

-----------------------------------------------------------------------------------------
-- Cached forms that are kept
-----------------------------------------------------------------------------------------

/-- The cached form of a source can be kept: the record of cached files loads what was saved to it, what
stands at its document and at the cached form may be read, and the source was not changed in the future.
-/
structure KeepsForm (config : Config) (workspace : Workspace) (source : Path) : Prop where
  loads : ∀ saves, workspace.metadata ≠ .corrupted saves
  record : ∀ path, workspace.metadata.file? = some path → workspace.disk.MayRead path
  form : workspace.disk.MayRead (FeatureCache.cachedPath config source)
  past : ∀ entry, workspace.disk.entry? (source.place workspace.disk.current) = some entry →
    entry.modified ≤ workspace.disk.clock

/-- What changed last did so by now, if all that stood before had. -/
theorem past_of_recent {early late : Disk} {place : Location} {entry : Entry}
    (past : ∀ entry, early.entry? place = some entry → entry.modified ≤ early.clock)
    (clock : early.clock ≤ late.clock)
    (recent : early.entry? place = some entry
      ∨ (early.clock < entry.modified ∧ entry.modified ≤ late.clock))
    : entry.modified ≤ late.clock :=
  recent.elim (fun stood => (past entry stood).trans clock) And.right

/-- A change that only adds and keeps the store of the record keeps the form. -/
theorem KeepsForm.of_grows {writes : Location → Prop} (keeps : KeepsForm config workspace source)
    (grows : Disk.Grows writes workspace.disk later.disk)
    (file : later.metadata.file? = workspace.metadata.file?)
    (loads : ∀ saves, later.metadata ≠ .corrupted saves)
    : KeepsForm config later source where
  loads := loads
  record := fun path isRecord => grows.mayRead (keeps.record path (file ▸ isRecord))
  form := grows.mayRead keeps.form
  past := fun entry stands => by
    rw [grows.current] at stands
    exact past_of_recent keeps.past grows.clock (grows.recent _ entry stands)

/-- Making the output tree anew keeps the form. -/
theorem KeepsForm.of_reset {disk : Disk} (keeps : KeepsForm config workspace source)
    (disjoint : config.Disjoint workspace) (isSource : config.IsSource source names)
    (reset : Disk.Frame (resetTerritory config workspace) workspace.disk disk)
    : KeepsForm config { workspace with disk } source where
  loads := keeps.loads
  record := fun path isRecord => reset.mayRead
    ((beside_resetTerritory disjoint (disjoint.output_document (metadata_mem_documentPaths isRecord))).clears
      _ (List.prefix_refl _))
    (keeps.record path isRecord)
  form := by
    refine reset.mayRead ?_ keeps.form
    rw [place_cachedPath isSource]
    exact ((beside_resetTerritory disjoint disjoint.output_cache).lower (List.prefix_append _ _)).clears _
      (List.prefix_refl _)
  past := fun entry stands => by
    rw [reset.current] at stands
    exact past_of_recent keeps.past reset.clock (reset.recent _ entry stands)

theorem ne_corrupted_of_save {store : Store Metadata} (loads : ∀ saves, store ≠ .corrupted saves)
    (disk : Disk) (value : Metadata)
    : ∀ saves, (store.save disk value).2.2 ≠ .corrupted saves := by
  intro saves same
  cases store with
  | file path => simp [Store.save] at same
  | memory known count => simp [Store.save] at same
  | corrupted count => exact loads count rfl

theorem ne_corrupted_of_process (loads : ∀ saves, workspace.metadata ≠ .corrupted saves)
    : ∀ saves, (process preparation source workspace).2.metadata ≠ .corrupted saves := by
  unfold process
  split
  · next content disk _ =>
      rcases cache_cases preparation.config source content { workspace with disk } with
        same | ⟨-, -, _, _, -, ⟨-, -, failed⟩ | ⟨-, recorded⟩⟩
      · rw [same]; exact loads
      · rw [failed]; exact loads
      · rw [recorded]; exact ne_corrupted_of_save loads _ _
  · exact loads

theorem metadata_restore (preparation : Preparation) (source cached : Path) (workspace : Workspace)
    : (restore preparation source cached workspace).2.metadata = workspace.metadata := by
  unfold restore
  split <;> rfl

theorem ne_corrupted_of_buildFile (loads : ∀ saves, workspace.metadata ≠ .corrupted saves)
    : ∀ saves, (buildFile preparation reuseAllowed source workspace).2.metadata ≠ .corrupted saves := by
  have kept := metadata_restore preparation source (FeatureCache.cachedPath preparation.config source)
    workspace
  rcases buildFile_cases preparation reuseAllowed source workspace with
    ⟨restored, -, -, taken, built⟩ | ⟨restored, missed, built⟩ | built
  · rw [taken] at kept
    rw [built, kept]
    exact loads
  · rw [missed] at kept
    rw [built]
    exact ne_corrupted_of_process (kept ▸ loads)
  · rw [built]
    exact ne_corrupted_of_process loads

/-- Building another file keeps the form. -/
theorem KeepsForm.of_buildFile {other : Path} {others : List Text}
    (keeps : KeepsForm preparation.config workspace source) (reuseAllowed : Bool)
    (isOther : preparation.config.IsSource other others)
    : KeepsForm preparation.config (buildFile preparation reuseAllowed other workspace).2 source :=
  keeps.of_grows (grows_buildFile reuseAllowed workspace isOther)
    (confined_buildFile reuseAllowed workspace isOther).metadata (ne_corrupted_of_buildFile keeps.loads)

-----------------------------------------------------------------------------------------
-- The form that is cached is taken
-----------------------------------------------------------------------------------------

/-- The path of a cached form that is found leads to it. -/
theorem holds_cachedPath {disk : Disk} {entry : Entry} (isSource : config.IsSource source names)
    (nonempty : names ≠ []) (found : disk.find (FeatureCache.cachedPath config source) = .ok entry)
    : disk.holds (FeatureCache.cachedPath config source) = true := by
  obtain ⟨before, pieces, -⟩ := Path.pieces_below config.featureCache.directory isSource.2 nonempty
  have bare : ∀ piece, (FeatureCache.cachedPath config source).pieces.getLast? = some piece →
      Path.isIdle piece = false := by
    intro piece last
    rw [FeatureCache.cachedPath_of_isSource isSource, pieces,
      List.getLast?_append_of_ne_nil _ nonempty] at last
    have proper := isSource.2 piece (List.mem_of_getLast? last)
    refine Bool.eq_false_iff.mpr fun idle => ?_
    exact (Path.isIdle_iff.mp idle).elim proper.nonempty proper.notHere
  unfold Disk.holds
  rw [Disk.resolve_of_find found bare]
  rfl

/-- A form that could be cached is taken. -/
theorem taken?_cache {entry : Entry} (tree : workspace.disk.IsTree)
    (disjoint : preparation.config.Disjoint workspace)
    (isSource : preparation.config.IsSource source names) (nonempty : names ≠ [])
    (keeps : KeepsForm preparation.config workspace source)
    (enabled : preparation.config.featureCache.enabled = true)
    (opens : Opening.startsWithFeature content = true)
    (persists : (FeatureCache.persist preparation.config workspace.disk workspace.metadata source
      content).1.isOk = true)
    (found : workspace.disk.find source = .ok entry)
    (dated : Dated workspace.disk.clock (cache preparation.config source content workspace).disk.clock)
    : taken? preparation true source (cache preparation.config source content workspace) = some content := by
  obtain ⟨written, wrote, recorded, cached⟩ := cache_of_persist enabled opens persists
  have confined := confined_cache workspace content isSource
  have wroteForm := Disk.wrote_of_write wrote
  have growsForm := Disk.grows_of_write wrote
  have treeWritten : written.IsTree := isTree_of_grows tree growsForm wroteForm.frame
    (.written tree.proper.current _)
  have disjointWritten : preparation.config.Disjoint { workspace with disk := written } :=
    disjoint.of_confined (.ofFrame wroteForm.frame)
  have saved := (confined_record { workspace with disk := written } source
    (FeatureCache.cachedPath preparation.config source)).frame
  have later := clock_record { workspace with disk := written } source
    (FeatureCache.cachedPath preparation.config source)
  rw [cached] at dated confined ⊢
  -- recording leaves the form that was written
  have reads := (saved.read_iff_of_clears treeWritten (down_cachedPath disjointWritten isSource) (by
      intro upper above changes
      obtain ⟨path, isRecord, rfl⟩ := Store.changes_territory_iff.mp changes
      rw [place_cachedPath isSource] at above
      exact (disjointWritten.cache_document (metadata_mem_documentPaths isRecord)).symm.not_both above
        (List.prefix_append _ _))).mpr (wroteForm.read keeps.form)
  obtain ⟨form, foundForm, -⟩ := Disk.read_eq_ok reads
  have known := loadUsable_of_record keeps.loads
    (fun path isRecord => growsForm.mayRead (keeps.record path isRecord))
    (dated _ (growsForm.clock.trans_lt (Int.lt_succ _)) later) recorded
  have timed : _ = workspace.disk.modified source := modified_of_beside confined.frame tree disjoint isSource
    (((fileWithinFiles isSource.2 _ workspace).trans (filesWithinBuild _ workspace)).beside
      (beside_authored disjoint (Or.inl rfl))) (Disk.find_eq_ok found)
  refine taken?_eq_some_iff.mpr ⟨rfl, enabled, holds_cachedPath isSource nonempty foundForm, reads,
    ⟨FeatureCache.cachedPath preparation.config source, .ofMilliseconds written.tick.clock⟩, ?_, ?_⟩
  · unfold known?
    dsimp only
    rw [known, Option.bind_some, SortedMap.find?_insert, if_pos rfl]
  · unfold FeatureCache.isUnchangedSince
    rw [timed]
    unfold Disk.modified Disk.optional
    simp only [found, Except.map]
    refine Instant.le_ofMilliseconds ?_
    have past := keeps.past entry (Disk.find_eq_ok found)
    have clock := growsForm.clock
    rw [Disk.clock_tick]
    omega

/-- A remaining file that is prepared and cached has its cached form taken. -/
theorem taken?_process (underway : Underway preparation.config sources remaining workspace)
    (listed : Listed preparation.config sources) (member : source ∈ remaining)
    (keeps : KeepsForm preparation.config workspace source)
    (enabled : preparation.config.featureCache.enabled = true)
    (prepared : preparation.prepared workspace.disk source = .ok content)
    (opens : Opening.startsWithFeature content = true)
    (could : couldCache preparation source workspace = true)
    (dated : Dated workspace.disk.clock (process preparation source workspace).2.disk.clock)
    : taken? preparation true source (process preparation source workspace).2 = some content := by
  obtain ⟨names, isSource⟩ := listed.isSource source (underway.subset member)
  obtain ⟨written, wrote, ran⟩ := run_of_prepared underway listed member isSource prepared
  obtain ⟨_, text, reads, -⟩ := Preparation.prepared_eq_ok prepared
  obtain ⟨entry, found, -⟩ := Disk.read_eq_ok reads
  have grows := grows_prepare workspace.disk isSource
  have confined : Command.Confined _ workspace { workspace with disk := written } :=
    .ofFrame wrote.frame
  rw [ran] at grows
  have beside := ((((withinOutput _ _ workspace).trans (fileWithinFiles isSource.2 _ workspace)).trans
    (filesWithinBuild _ workspace)).beside (beside_authored underway.disjoint (Or.inl rfl))).lower
    (List.prefix_append _ names)
  rw [← Path.place_along _ isSource.2, ← isSource.1] at beside
  have downSource : source.Down := by
    rw [isSource.1]
    exact Path.Down.along (underway.disjoint.down _ (List.mem_cons_self ..)) isSource.2
  have foundWritten : written.find source = .ok entry := by
    rw [wrote.frame.find_eq_of_clears underway.tree downSource beside.clears (Disk.find_eq_ok found)
      (Or.inr beside.not_touches), found]
  unfold couldCache at could
  unfold process at dated ⊢
  rw [ran] at could
  simp only [ran] at dated ⊢
  simp only [opens, Bool.not_true, Bool.false_or] at could
  exact taken?_cache (isTree_of_grows underway.tree grows wrote.frame (.written underway.tree.proper.current _))
    (underway.disjoint.of_confined confined) isSource (listed.ne_nil (underway.subset member) isSource)
    (keeps.of_grows grows rfl keeps.loads) enabled opens could foundWritten
    (dated.mono wrote.later.le le_rfl)

-----------------------------------------------------------------------------------------
-- After all files
-----------------------------------------------------------------------------------------

/-- A cached form is taken as before after other files were built, by induction on these. -/
theorem taken?_buildFiles (allowed : Bool) (listed : Listed preparation.config sources)
    (underway : Underway preparation.config sources remaining workspace)
    (steady : Steady preparation source workspace) (member : source ∈ sources) (absent : source ∉ remaining)
    (dated : Dated workspace.disk.clock
      (buildFiles preparation reuseAllowed remaining workspace).2.disk.clock)
    : taken? preparation allowed source (buildFiles preparation reuseAllowed remaining workspace).2
      = taken? preparation allowed source workspace := by
  induction remaining generalizing workspace with
  | nil => rfl
  | cons other rest ih =>
      obtain ⟨differ, absent⟩ := not_or.mp (fun either => absent (List.mem_cons.mpr either))
      obtain ⟨names, isSource⟩ := listed.isSource source member
      obtain ⟨others, isOther⟩ := listed.isSource other (underway.subset (List.mem_cons_self ..))
      have confined := confined_buildFile reuseAllowed workspace isOther
      obtain ⟨first, later⟩ := clocks_buildFiles reuseAllowed listed underway
      have same := (same_of_buildFile allowed listed underway steady member differ (dated.mono le_rfl later)).1
      have steadyNext := (steady.of_confined underway.disjoint isSource
        (confined.mono (fileWithinFiles isOther.2 preparation.config workspace))).1
      exact (ih (underway.step listed reuseAllowed) steadyNext absent (dated.mono first le_rfl)).trans same

/-- A remaining file of which a form that opens as a feature is made has its cached form taken, if what
is prepared could be cached.
-/
theorem taken?_buildFile_of_made (listed : Listed preparation.config sources)
    (underway : Underway preparation.config sources remaining workspace) (member : source ∈ remaining)
    (stands : workspace.disk.entry? (source.place workspace.disk.current) ≠ none)
    (keeps : KeepsForm preparation.config workspace source)
    (enabled : preparation.config.featureCache.enabled = true)
    (could : (taken? preparation reuseAllowed source workspace).isSome
      || couldCache preparation source workspace)
    (made : (made (taken? preparation reuseAllowed source workspace)
      (preparation.prepared workspace.disk source)).2 = some (.text content))
    (opens : Opening.startsWithFeature content = true)
    (dated : Dated workspace.disk.clock
      (buildFile preparation reuseAllowed source workspace).2.disk.clock)
    : taken? preparation true source (buildFile preparation reuseAllowed source workspace).2
      = some content := by
  obtain ⟨names, isSource⟩ := listed.isSource source (underway.subset member)
  obtain ⟨entry, stands⟩ := Option.ne_none_iff_exists'.mp stands
  cases taken : taken? preparation reuseAllowed source workspace with
  | some text =>
      rw [taken] at made
      obtain rfl : text = content := by simpa [Build.made] using made
      have again := taken?_buildFile_self underway listed member isSource stands taken
      exact taken?_eq_some_iff.mpr ⟨rfl, (taken?_eq_some_iff.mp again).2⟩
  | none =>
      rw [taken] at made could
      cases prepared : preparation.prepared workspace.disk source with
      | error error => simp [prepared, Build.made] at made
      | ok text =>
          obtain rfl : text = content := by simpa [prepared, Build.made] using made
          rw [buildFile_of_not_taken taken] at dated ⊢
          exact taken?_process underway listed member keeps enabled prepared opens (by simpa using could) dated

/-- After a build that could cache what it has prepared, the cached form of every file of which a form that
opens as a feature was made is taken, by induction on the files.
-/
theorem taken?_of_made (listed : Listed preparation.config sources)
    (underway : Underway preparation.config sources remaining workspace)
    (steady : ∀ source ∈ sources, Steady preparation source workspace)
    (keeps : ∀ source ∈ sources, KeepsForm preparation.config workspace source)
    (enabled : preparation.config.featureCache.enabled = true)
    (could : couldCacheAll preparation reuseAllowed remaining workspace = true)
    (dated : Dated workspace.disk.clock
      (buildFiles preparation reuseAllowed remaining workspace).2.disk.clock)
    (member : source ∈ remaining)
    (made : (made (taken? preparation reuseAllowed source workspace)
      (preparation.prepared workspace.disk source)).2 = some (.text content))
    (opens : Opening.startsWithFeature content = true)
    : taken? preparation true source (buildFiles preparation reuseAllowed remaining workspace).2
      = some content := by
  induction remaining generalizing workspace with
  | nil => simp at member
  | cons first rest ih =>
      obtain ⟨couldFirst, couldRest⟩ := (Bool.and_eq_true ..).mp could
      obtain ⟨absent, -⟩ := List.nodup_cons.mp underway.once
      have memberFirst := underway.subset (List.mem_cons_self ..)
      obtain ⟨names, isFirst⟩ := listed.isSource first memberFirst
      have next := underway.step listed reuseAllowed
      have within := (confined_buildFile reuseAllowed workspace isFirst).mono
        (fileWithinFiles isFirst.2 preparation.config workspace)
      obtain ⟨early, late⟩ := clocks_buildFiles reuseAllowed listed underway
      have steadyNext (other : Path) (memberOther : other ∈ sources)
          : Steady preparation other (buildFile preparation reuseAllowed first workspace).2 := by
        obtain ⟨others, isOther⟩ := listed.isSource other memberOther
        exact ((steady other memberOther).of_confined underway.disjoint isOther within).1
      rcases List.mem_cons.mp member with rfl | inRest
      · have cached := taken?_buildFile_of_made listed underway (List.mem_cons_self ..)
          (steady source memberFirst).stands (keeps source memberFirst) enabled couldFirst made opens
          (dated.mono le_rfl late)
        exact (taken?_buildFiles true listed next (steadyNext source memberFirst) memberFirst absent
          (dated.mono early le_rfl)).trans cached
      · have memberOther := underway.subset (List.mem_cons_of_mem _ inRest)
        obtain ⟨taken, prepared⟩ := same_of_buildFile reuseAllowed listed underway (steady source memberOther)
          memberOther (fun same => absent (same ▸ inRest)) (dated.mono le_rfl late)
        rw [← taken, ← prepared] at made
        exact ih next steadyNext
          (fun other memberOther => (keeps other memberOther).of_buildFile reuseAllowed isFirst) couldRest
          (dated.mono early le_rfl) inRest made

-----------------------------------------------------------------------------------------
-- The second build
-----------------------------------------------------------------------------------------

/-- Getting ready keeps the form. -/
theorem KeepsForm.of_ready {refresh : Refresh} (keeps : KeepsForm config before source)
    (sound : Sound config value found before) (member : source ∈ found)
    (got : ready config force before = .ok (refresh, found) created)
    : KeepsForm config created source := by
  obtain ⟨refreshed, ran, soundRefreshed, -, reset, same, begun⟩ := begun_of_ready sound got
  obtain ⟨names, isSource⟩ := begun.listed.isSource source member
  have stored := Refresh.metadata_run ran
  rw [same]
  exact (keeps.of_grows (Refresh.grows_run ran) (by rw [stored]) (stored ▸ keeps.loads)).of_reset
    soundRefreshed.disjoint isSource reset

/-- After a build that had begun and could cache what it has prepared, the cached form of a file of which a
form that opens as a feature was made is taken.
-/
theorem Begun.taken?_of_made (begun : Begun config value found created)
    (built : buildFiles (preparationOn created.disk config value) reuseAllowed found created
      = (files, after))
    (keeps : ∀ source ∈ found, KeepsForm config created source)
    (enabled : config.featureCache.enabled = true)
    (could : couldCacheAll (preparationOn created.disk config value) reuseAllowed found created = true)
    (dated : Dated created.disk.clock after.disk.clock) (member : source ∈ found)
    (made : (made (taken? (preparationOn created.disk config value) reuseAllowed source created)
      ((preparationOn created.disk config value).prepared created.disk source)).2 = some (.text content))
    (opens : Opening.startsWithFeature content = true)
    : taken? (preparationOn created.disk config value) true source after = some content := by
  have steady : ∀ source ∈ found, Steady (preparationOn created.disk config value) source created :=
    fun source member => begun.steady _ member
  have datedFiles : Dated created.disk.clock (buildFiles (preparationOn created.disk config value)
      reuseAllowed found created).2.disk.clock := by
    rw [built]
    exact dated
  have taken := Build.taken?_of_made begun.listed begun.underway steady keeps enabled could datedFiles member
    made opens
  rwa [built] at taken

/-- A form is made of every file when none fails. -/
theorem exists_made (done : Done config value reuseAllowed found created files after)
    (noneFailed : (BuildOutcome.mk refresh files).failed = []) (member : source ∈ found)
    : ∃ text, (made (taken? (preparationOn created.disk config value) reuseAllowed source created)
        ((preparationOn created.disk config value).prepared created.disk source)).2 = some (.text text) := by
  have outcome := List.mem_map_of_mem (f := fun source => (source,
    (made (taken? (preparationOn created.disk config value) reuseAllowed source created)
      ((preparationOn created.disk config value).prepared created.disk source)).1)) member
  rw [← done.outcomes] at outcome
  have notFailed := List.filterMap_eq_nil_iff.mp noneFailed _ outcome
  revert notFailed
  generalize taken? (preparationOn created.disk config value) reuseAllowed source created = taken
  generalize (preparationOn created.disk config value).prepared created.disk source = prepared
  cases taken <;> cases prepared <;> simp [made]

/-- The lists of a build that has reused all files. -/
theorem lists_of_all_reused (refresh : Refresh) (all : files = found.map fun source => (source, .reused))
    : (BuildOutcome.mk refresh files).processed = [] ∧ (BuildOutcome.mk refresh files).failed = []
      ∧ (BuildOutcome.mk refresh files).reused = found := by
  subst all
  refine ⟨?_, ?_, ?_⟩
  · simp [BuildOutcome.processed]
  · simp [BuildOutcome.failed]
  · simp [BuildOutcome.reused, List.filter_map, Function.comp_def]

/-- After a build of a sound project that has failed for no file, and has made forms only that open as
features and could be cached, the next build finds the step groups fresh. It takes the cached forms of
all files in their order, and makes the same output tree.
-/
theorem second_build_reuses_all {first : BuildOutcome} {middle : Workspace}
    (enabled : config.featureCache.enabled = true)
    (sound : Sound config value (first.files.map Prod.fst) before)
    (keepsRecord : Refresh.KeepsRecord before)
    (keepsForm : ∀ source ∈ first.files.map Prod.fst, KeepsForm config before source)
    (ran : run config value force before = .ok first middle)
    (could : cachesAll config value force before = true) (noneFailed : first.failed = [])
    (opens : ∀ names text, middle.disk.content?
        (config.outputDirectory.place middle.disk.current ++ names) = some (.text text) →
      Opening.startsWithFeature text = true)
    (dated : Dated before.disk.clock middle.disk.clock)
    : ∃ second last, run config value false middle = .ok second last ∧ second.refresh = .fresh
        ∧ (Dated middle.disk.clock last.disk.clock →
          second.processed = [] ∧ second.failed = [] ∧ second.reused = first.files.map Prod.fst
          ∧ ∀ names, last.disk.content? (config.outputDirectory.place last.disk.current ++ names)
            = middle.disk.content? (config.outputDirectory.place middle.disk.current ++ names)) := by
  obtain ⟨created, disk, gotFirst, done, got, begun, reset⟩ := exists_next sound keepsRecord ran dated
  let next : Workspace := { middle with disk }
  let built := buildFiles (preparationOn disk config value) (allowsReuse config false .fresh)
    (first.files.map Prod.fst) next
  have ranAgain : run config value false middle = .ok ⟨.fresh, built.1⟩ built.2 := by
    rw [run_eq, got]
  refine ⟨⟨.fresh, built.1⟩, built.2, ranAgain, rfl, fun datedLast => ?_⟩
  have doneNext : Done config value (allowsReuse config false .fresh) (first.files.map Prod.fst) next
      built.1 built.2 :=
    begun.done rfl (datedLast.mono reset.clock le_rfl)
  have builtFirst : buildFiles (preparationOn created.disk config value)
      (allowsReuse config force first.refresh) (first.files.map Prod.fst) created = (first.files, middle) := by
    rw [run_eq, gotFirst] at ran
    obtain ⟨same, last⟩ := EStateM.Result.ok.inj ran
    exact Prod.ext (congrArg BuildOutcome.files same) last
  have datedFirst : Dated created.disk.clock middle.disk.clock :=
    dated.mono ((confined_ready config force before).ofOk gotFirst).frame.clock le_rfl
  unfold cachesAll at could
  rw [gotFirst] at could
  -- the second build takes what the first one has made
  have each (source : Path) (member : source ∈ first.files.map Prod.fst)
      : ∃ text, taken? (preparationOn disk config value) (allowsReuse config false .fresh) source next
            = some text
          ∧ (made (taken? (preparationOn created.disk config value) (allowsReuse config force first.refresh)
              source created) ((preparationOn created.disk config value).prepared created.disk source)).2
            = some (.text text) := by
    obtain ⟨names, isSource⟩ := done.begun.listed.isSource source member
    obtain ⟨text, isMade⟩ := exists_made done noneFailed member
    have taken := done.begun.taken?_of_made builtFirst
      (fun source member => (keepsForm source member).of_ready sound member gotFirst) enabled could
      datedFirst member isMade (opens names text ((done.output member isSource).trans isMade))
    exact ⟨text, (done.taken?_next reset member).trans (done.preparationOn_eq ▸ taken), isMade⟩
  have allReused : built.1 = (first.files.map Prod.fst).map fun source => (source, .reused) := by
    refine doneNext.outcomes.trans (List.map_congr_left fun source member => ?_)
    obtain ⟨text, taken, -⟩ := each source member
    rw [taken]
    rfl
  obtain ⟨processed, failed, reused⟩ := lists_of_all_reused .fresh allReused
  refine ⟨processed, failed, reused, (outputs_eq_iff done doneNext).mpr fun source member => ?_⟩
  obtain ⟨text, taken, isMade⟩ := each source member
  rw [taken, isMade]
  rfl

end

-----------------------------------------------------------------------------------------
-- A feature that is built twice
-----------------------------------------------------------------------------------------

namespace Example

/-- Nothing stands yet where the form of the feature is cached, and the record is in memory. -/
theorem keepsForm : KeepsForm config unbuilt source where
  loads := by simp [unbuilt]
  record := by simp [unbuilt, Store.file?]
  form := by
    have absent : unbuilt.disk.entry? ((FeatureCache.cachedPath config source).place unbuilt.disk.current)
        = none := by decide +kernel
    intro entry stands
    simp [absent] at stands
  past := by
    have known : unbuilt.disk.entry? (source.place unbuilt.disk.current)
        = some (file "Feature:\n* Step Group: -a- -x-" 5) := by decide +kernel
    intro entry stands
    obtain rfl := Option.some.inj (known.symm.trans stands)
    decide

/-- Whether a file opens as a feature, if it is a text. -/
def opensAsFeature (entry : Entry) : Bool :=
  match entry.content? with
  | some (.text text) => Opening.startsWithFeature text
  | _ => true

set_option maxRecDepth 100000 in
/-- All outputs of the example open as features. -/
theorem opens (names : List Text) (text : Text)
    (stands : built.disk.content? (config.outputDirectory.place built.disk.current ++ names)
      = some (.text text))
    : Opening.startsWithFeature text = true := by
  have each : ∀ entry ∈ built.disk.entries.toList,
      config.outputDirectory.place built.disk.current <+: entry.1 → opensAsFeature entry.2 = true := by
    decide +kernel
  obtain ⟨entry, standing, hasContent⟩ := Option.bind_eq_some_iff.mp stands
  have opens := each _ (SortedMap.find?_eq_some_iff.mp standing) (List.prefix_append _ _)
  unfold opensAsFeature at opens
  rwa [hasContent] at opens

/-- The configuration of the example with step groups that are reached through the directory of their
catalogue.
-/
def detour : Config :=
  { config with stepGroups := ⟨.of "x/../g", .of "x/c", .of "p", .of "b"⟩ }

end Example

set_option maxRecDepth 100000 in
/-- Witness: a second build of the example reuses the feature that the first one has prepared. -/
theorem second_build_reuses_all_cached_feature
    : ∃ second last, run Example.config id false Example.built = .ok second last
        ∧ second.refresh = .fresh ∧ second.processed = [] ∧ second.reused = [Example.source]
        ∧ ∀ names, last.disk.content?
              (Example.config.outputDirectory.place last.disk.current ++ names)
            = Example.built.disk.content?
              (Example.config.outputDirectory.place Example.built.disk.current ++ names) := by
  have could : cachesAll Example.config id false Example.unbuilt = true := by decide +kernel
  obtain ⟨first, ran, files⟩ := Example.exists_built
  have listed : first.files.map Prod.fst = [Example.source] := by simp [files]
  have failed : first.failed = [] := by simp [BuildOutcome.failed, files]
  obtain ⟨dated, datedLast⟩ := Example.dated_builds
  obtain ⟨second, last, again, fresh, hits⟩ :=
    second_build_reuses_all rfl (listed ▸ Example.sound) Example.keepsRecord
      (by simpa [listed] using Example.keepsForm) ran could failed Example.opens dated
  rw [again, Command.left_ok] at datedLast
  obtain ⟨processed, -, reused, outputs⟩ := hits datedLast
  exact ⟨second, last, again, fresh, processed, reused.trans listed, outputs⟩

set_option maxRecDepth 100000 in
/-- Counterexample: a build that makes the directory through which its step-group documents are reached has
the next one read the step groups again, which therefore prepares the feature once more.
-/
theorem second_build_prepares_detour
    : ((generatedPaths Example.detour Example.unbuilt).Pairwise fun path other =>
        (path.place []).Apart (other.place []))
      ∧ (∀ path ∈ generatedPaths Example.detour Example.unbuilt,
        (path.place []).Apart (Example.detour.featuresDirectory.place [])
          ∧ (path.place []).Apart (Example.detour.stepGroups.sourceDirectory.place []))
      ∧ (Command.value? (run Example.detour id false Example.unbuilt)).map
          (fun outcome => (outcome.processed, outcome.failed)) = some ([Example.source], [])
      ∧ output? Example.detour (Command.left (run Example.detour id false Example.unbuilt)).disk
          Example.source = some (.text "Feature:\n* Step Group: -a- -x-".toList)
      ∧ (Command.value? (run Example.detour id false
            (Command.left (run Example.detour id false Example.unbuilt)))).map
          (fun outcome => (outcome.refresh.isRegenerated, outcome.processed, outcome.reused))
        = some (true, [Example.source], []) := by
  decide +kernel

end FeaturePress.Build
