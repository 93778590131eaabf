import FeaturePress.Proofs.Project.Adding

/-! Which cached forms are taken. Building a file changes its own cached form and its own entry in the
record, so the cached forms of other files are taken as before.
-/

namespace FeaturePress.Build

variable {config : Config} {preparation : Preparation} {reuseAllowed : Bool} {source : Path}
  {names : List Text} {workspace : Workspace}

-----------------------------------------------------------------------------------------
-- The cached form that is taken
-----------------------------------------------------------------------------------------

/-- The entry of a source in the record of cached files. -/
def known? (source : Path) (workspace : Workspace) : Option CachedFile :=
  (workspace.metadata.loadUsable workspace.disk).bind (·.find? source.spelling)

/-- The text of the cached form of a source, if this is taken. -/
def taken? (preparation : Preparation) (reuseAllowed : Bool) (source : Path) (workspace : Workspace)
    : Option Text :=
  let cached := FeatureCache.cachedPath preparation.config source
  if reuseAllowed && FeatureCache.isReusable preparation.config workspace.disk workspace.metadata source
      cached
    then (workspace.disk.read cached).toOption
    else none

theorem taken?_eq_some_iff {text : Text}
    : taken? preparation reuseAllowed source workspace = some text
      ↔ reuseAllowed = true ∧ preparation.config.featureCache.enabled = true
        ∧ workspace.disk.holds (FeatureCache.cachedPath preparation.config source) = true
        ∧ workspace.disk.read (FeatureCache.cachedPath preparation.config source) = .ok text
        ∧ ∃ entry, known? source workspace = some entry
          ∧ FeatureCache.isUnchangedSince workspace.disk source entry = true := by
  unfold taken? known? FeatureCache.isReusable
  cases hread : workspace.disk.read (FeatureCache.cachedPath preparation.config source) <;>
    cases (workspace.metadata.loadUsable workspace.disk).bind (·.find? source.spelling) <;>
    simp [hread, Except.toOption, and_assoc]
  tauto

/-- A change beside a cached form, which keeps what is known of it and the time of its source, has it taken
as before.
-/
theorem taken?_of_frame {bounds : Disk.Territory} {later : Workspace}
    (frame : Disk.Frame bounds workspace.disk later.disk) (tree : workspace.disk.IsTree)
    (down : (FeatureCache.cachedPath preparation.config source).Down)
    (clears : bounds.Clears
      ((FeatureCache.cachedPath preparation.config source).place workspace.disk.current))
    (known : known? source later = known? source workspace)
    (timed : later.disk.modified source = workspace.disk.modified source)
    : taken? preparation reuseAllowed source later = taken? preparation reuseAllowed source workspace := by
  apply Option.ext
  intro text
  have reads : later.disk.read (FeatureCache.cachedPath preparation.config source) = .ok text
      ↔ workspace.disk.read (FeatureCache.cachedPath preparation.config source) = .ok text :=
    frame.read_iff_of_clears tree down clears
  rw [taken?_eq_some_iff, taken?_eq_some_iff, known, reads]
  unfold FeatureCache.isUnchangedSince
  rw [timed]
  have stands (read : workspace.disk.read (FeatureCache.cachedPath preparation.config source) = .ok text)
      : later.disk.holds (FeatureCache.cachedPath preparation.config source)
        = workspace.disk.holds (FeatureCache.cachedPath preparation.config source) := by
    obtain ⟨entry, found, -⟩ := Disk.read_eq_ok read
    refine ((frame.agree_of_stands tree down clears ?_).holds fun _ member => member).symm
    simp [Disk.find_eq_ok found]
  constructor
  · rintro ⟨allowed, enabled, holds, read, unchanged⟩
    exact ⟨allowed, enabled, stands read ▸ holds, read, unchanged⟩
  · rintro ⟨allowed, enabled, holds, read, unchanged⟩
    exact ⟨allowed, enabled, (stands read).symm ▸ holds, read, unchanged⟩

/-- What is known of a source stays when the record is not written. -/
theorem known?_of_grows {writes : Location → Prop} {disk : Disk}
    (grows : Disk.Grows writes workspace.disk disk) (tree : workspace.disk.IsTree)
    (disjoint : config.Disjoint workspace)
    (plain : ∀ path, workspace.metadata.file? = some path → ¬ writes (path.place workspace.disk.current))
    : known? source { workspace with disk } = known? source workspace := by
  unfold known?
  rw [Store.loadUsable_of_grows grows plain fun path isRecord =>
    tree.direct (disjoint.down_document (metadata_mem_documentPaths isRecord))]

/-- Only instants in range are loaded from a document. -/
theorem isInRange_of_loadUsable {path : Path} {disk : Disk} {record : Metadata}
    (loads : (Store.file path : Store Metadata).loadUsable disk = some record)
    : record.IsInRange ∧ ∃ text, disk.read path = .ok text := by
  obtain ⟨text, reads, back⟩ := Store.read_of_loadUsable loads
  exact ⟨Metadata.isInRange_of_read? back, text, reads⟩

/-- A record in a document to which a source is added is read back. -/
theorem readsBack_recorded {store : Store Metadata} {path : Path} {time : Int}
    (isFile : store.file? = some path) (disk : Disk) (source cached : Path)
    (inRange : (Instant.ofMilliseconds time).IsInRange)
    : Storable.ReadsBack (((store.loadUsable disk).getD SortedMap.empty).insert source.spelling
        ⟨cached, .ofMilliseconds time⟩) := by
  refine Metadata.readsBack fun entry member => ?_
  rcases SortedMap.mem_insertEntry member with rfl | earlier
  · exact inRange
  · rw [Store.eq_file isFile] at earlier
    cases loaded : (Store.file path : Store Metadata).loadUsable disk with
    | none => simp [loaded, SortedMap.empty] at earlier
    | some record => exact (isInRange_of_loadUsable loaded).1 entry (by simpa [loaded] using earlier)

/-- What is known of a source stays when another one is recorded. -/
theorem known?_record {other cached : Path} (tree : workspace.disk.IsTree)
    (disjoint : config.Disjoint workspace) (differ : source ≠ other)
    (inRange : (Instant.ofMilliseconds workspace.disk.tick.clock).IsInRange)
    : known? source { workspace with
        disk := (FeatureCache.record workspace.disk workspace.metadata other cached).2.1
        metadata := (FeatureCache.record workspace.disk workspace.metadata other cached).2.2 }
      = known? source workspace := by
  have keys : source.spelling ≠ other.spelling := by
    intro same
    cases source
    cases other
    simp_all
  unfold FeatureCache.record
  dsimp only
  rcases saved : workspace.metadata.save workspace.disk.tick _ with ⟨outcome, written, last⟩
  cases outcome with
  | error cause =>
      obtain ⟨rfl, grows⟩ : last = workspace.metadata
          ∧ Disk.Grows (fun _ => False) workspace.disk.tick written := Store.grows_save_of_error saved
      exact known?_of_grows ((Disk.grows_tick _ workspace.disk).trans grows) tree disjoint
        fun _ _ => id
  | ok _ =>
      unfold known?
      dsimp only
      cases hstore : workspace.metadata with
      | memory value saves =>
          rw [hstore] at saved
          unfold Store.save at saved
          simp only [Prod.mk.injEq, true_and] at saved
          obtain ⟨-, rfl⟩ := saved
          change Option.bind (some _) _ = Option.bind value _
          rw [Option.bind_some, SortedMap.find?_insert, if_neg keys]
          cases value <;> rfl
      | corrupted saves =>
          rw [hstore] at saved
          unfold Store.save at saved
          simp only [Prod.mk.injEq, true_and] at saved
          obtain ⟨-, rfl⟩ := saved
          rfl
      | file path =>
          rw [hstore] at saved
          have isFile : (Store.file path : Store Metadata).file? = some path := rfl
          have back := readsBack_recorded isFile workspace.disk other cached inRange
          cases loaded : (Store.file path : Store Metadata).loadUsable workspace.disk with
          | none =>
              rw [loaded] at saved
              -- the record is begun anew, and where it could not be read it still cannot
              cases loads : last.loadUsable written with
              | none => rfl
              | some record =>
                  rw [loaded] at back
                  rw [Store.eq_of_loadUsable_of_save saved back loads]
                  simp [SortedMap.find?_insert, keys]
          | some record =>
              obtain ⟨-, text, reads⟩ := isInRange_of_loadUsable loaded
              rw [loaded] at saved back
              rw [Store.loadUsable_of_save saved (fun _ _ => back) (by simp) ?_, Option.bind_some,
                Option.bind_some, Option.getD_some, SortedMap.find?_insert, if_neg keys]
              intro _ entry isPath stands
              obtain ⟨rfl⟩ := isPath
              obtain ⟨found, isFound, readable, -⟩ := Disk.read_eq_ok reads
              obtain rfl := Option.some.inj (stands.symm.trans (Disk.find_eq_ok isFound))
              exact readable

/-- All instants after one time and up to another are in range. -/
def Dated (early late : Int) : Prop :=
  ∀ time, early < time → time ≤ late → (Instant.ofMilliseconds time).IsInRange

theorem Dated.mono {early late earlier later : Int} (dated : Dated early late) (lower : early ≤ earlier)
    (upper : later ≤ late)
    : Dated earlier later :=
  fun time after before => dated time (lower.trans_lt after) (before.trans upper)

theorem clock_record (workspace : Workspace) (other cached : Path)
    : workspace.disk.clock
        < (FeatureCache.record workspace.disk workspace.metadata other cached).2.1.clock := by
  unfold FeatureCache.record
  have later := (Store.frame_save workspace.metadata workspace.disk.tick
    (((workspace.metadata.loadUsable workspace.disk).getD SortedMap.empty).insert other.spelling
      ⟨cached, .ofMilliseconds workspace.disk.tick.clock⟩)).clock
  exact (Int.lt_succ _).trans_le later

/-- A disk hangs together after changes that only add within a proper territory. -/
theorem isTree_of_grows {writes : Location → Prop} {bounds : Disk.Territory} {before after : Disk}
    (tree : before.IsTree) (grows : Disk.Grows writes before after) (frame : Disk.Frame bounds before after)
    (proper : bounds.IsProper)
    : after.IsTree :=
  grows.isTree tree (frame.proper tree.proper proper)

section

variable {other : Path} {others : List Text}

theorem output_ne_record (disjoint : config.Disjoint workspace) (proper : ∀ name ∈ others, IsName name)
    : ∀ path, workspace.metadata.file? = some path →
        path.place workspace.disk.current
          ≠ (config.outputDirectory.below others).place workspace.disk.current := by
  intro path isRecord same
  rw [Path.place_below _ proper] at same
  exact (disjoint.output_document (metadata_mem_documentPaths isRecord)).1
    (same ▸ List.prefix_append _ _)

theorem cached_ne_record (disjoint : config.Disjoint workspace) (proper : ∀ name ∈ others, IsName name)
    : ∀ path, workspace.metadata.file? = some path →
        path.place workspace.disk.current
          ≠ (config.featureCache.directory.below others).place workspace.disk.current := by
  intro path isRecord same
  rw [Path.place_below _ proper] at same
  exact (disjoint.cache_document (metadata_mem_documentPaths isRecord)).1
    (same ▸ List.prefix_append _ _)

/-- What is known of a source stays when another one is cached. -/
theorem known?_cache (tree : workspace.disk.IsTree) (disjoint : config.Disjoint workspace)
    (isOther : config.IsSource other others) (differ : source ≠ other) (content : Text)
    (dated : Dated workspace.disk.clock (cache config other content workspace).disk.clock)
    : known? source (cache config other content workspace) = known? source workspace := by
  rcases cache_cases config other content workspace with
    same | ⟨-, -, outcome, written, wrote, ⟨error, rfl, failed⟩ | ⟨rfl, recorded⟩⟩
  · rw [same]
  · rw [failed]
    have grows : Disk.Grows (fun _ => False) workspace.disk written := Disk.grows_write_of_error wrote
    exact known?_of_grows grows tree disjoint fun _ _ => id
  · rw [FeatureCache.cachedPath_of_isSource isOther] at wrote
    have grows := Disk.grows_of_write wrote
    have confined : Command.Confined _ workspace { workspace with disk := written } :=
      .ofFrame (Disk.wrote_of_write wrote).frame
    have treeLater : written.IsTree := isTree_of_grows tree grows confined.frame
      (.written tree.proper.current _)
    rw [recorded, known?_record treeLater (disjoint.of_confined confined) differ ?_]
    · exact known?_of_grows grows tree disjoint (cached_ne_record disjoint isOther.2)
    · rw [recorded] at dated
      have clock := clock_record { workspace with disk := written } other
        (FeatureCache.cachedPath config other)
      exact dated _ (grows.clock.trans_lt (Int.lt_succ _)) clock

theorem known?_process (tree : workspace.disk.IsTree) (disjoint : preparation.config.Disjoint workspace)
    (isOther : preparation.config.IsSource other others) (differ : source ≠ other)
    (dated : Dated workspace.disk.clock (process preparation other workspace).2.disk.clock)
    : known? source (process preparation other workspace).2 = known? source workspace := by
  have grows := grows_prepare workspace.disk isOther
  have frame := frame_prepare workspace.disk isOther
  have confined : Command.Confined _ workspace
      { workspace with disk := (preparation.run workspace.disk other).2 } := .ofFrame frame
  have same : known? source { workspace with disk := (preparation.run workspace.disk other).2 }
      = known? source workspace :=
    known?_of_grows grows tree disjoint (output_ne_record disjoint isOther.2)
  have treeLater := isTree_of_grows tree grows frame (.written tree.proper.current _)
  have disjointLater := disjoint.of_confined confined
  unfold process at dated ⊢
  split
  · next content disk ran =>
      rw [ran] at same grows treeLater disjointLater dated
      rw [← same]
      exact known?_cache treeLater disjointLater isOther differ content
        (dated.mono grows.clock le_rfl)
  · next ran =>
      rw [ran] at same
      exact same

theorem known?_restore (tree : workspace.disk.IsTree) (disjoint : preparation.config.Disjoint workspace)
    (isOther : preparation.config.IsSource other others) (cached : Path)
    : known? source (restore preparation other cached workspace).2 = known? source workspace := by
  have same : (restore preparation other cached workspace).2
      = { workspace with disk := (restore preparation other cached workspace).2.disk } := by
    unfold restore
    split <;> rfl
  rw [same]
  exact known?_of_grows (grows_restore workspace cached isOther) tree disjoint
    (output_ne_record disjoint isOther.2)

/-- What is known of a source stays when another file is built. -/
theorem known?_buildFile (tree : workspace.disk.IsTree) (disjoint : preparation.config.Disjoint workspace)
    (isOther : preparation.config.IsSource other others) (differ : source ≠ other)
    (dated : Dated workspace.disk.clock
      (buildFile preparation reuseAllowed other workspace).2.disk.clock)
    : known? source (buildFile preparation reuseAllowed other workspace).2 = known? source workspace := by
  have same : known? source _ = known? source workspace :=
    known?_restore tree disjoint isOther (FeatureCache.cachedPath preparation.config other)
  have grows := grows_restore workspace (FeatureCache.cachedPath preparation.config other) isOther
  have confined := confined_restore workspace (FeatureCache.cachedPath preparation.config other) isOther
  rcases buildFile_cases preparation reuseAllowed other workspace with
    ⟨restored, -, -, done, built⟩ | ⟨restored, failed, built⟩ | built
  · rw [built, ← same, done]
  · rw [failed] at same grows confined
    rw [built] at dated ⊢
    rw [← same]
    exact known?_process (isTree_of_grows tree grows confined.frame (.written tree.proper.current _))
      (disjoint.of_confined confined) isOther differ (dated.mono grows.clock le_rfl)
  · rw [built] at dated ⊢
    exact known?_process tree disjoint isOther differ dated

end

-----------------------------------------------------------------------------------------
-- Cached forms that are taken as before
-----------------------------------------------------------------------------------------

/-- The time of a file that stands below the features directory stays after a change beside this. -/
theorem modified_of_beside {bounds : Disk.Territory} {later : Disk} {entry : Entry}
    (frame : Disk.Frame bounds workspace.disk later) (tree : workspace.disk.IsTree)
    (disjoint : config.Disjoint workspace) (isSource : config.IsSource source names)
    (beside : bounds.Beside (config.featuresDirectory.place workspace.disk.current))
    (stands : workspace.disk.entry? (source.place workspace.disk.current) = some entry)
    : later.modified source = workspace.disk.modified source := by
  have down : source.Down := by
    rw [isSource.1]
    exact Path.Down.along (disjoint.down _ (List.mem_cons_self ..)) isSource.2
  have beside : bounds.Beside (source.place workspace.disk.current) := by
    rw [isSource.1, Path.place_along _ isSource.2]
    exact beside.lower (List.prefix_append _ _)
  unfold Disk.modified
  rw [frame.find_eq_of_clears tree down beside.clears stands (Or.inr beside.not_touches)]

theorem down_cachedPath (disjoint : config.Disjoint workspace) (isSource : config.IsSource source names)
    : (FeatureCache.cachedPath config source).Down := by
  rw [FeatureCache.cachedPath_of_isSource isSource]
  exact disjoint.down_cache.below isSource.2

theorem place_cachedPath (isSource : config.IsSource source names) (start : Location)
    : (FeatureCache.cachedPath config source).place start
      = config.featureCache.directory.place start ++ names := by
  rw [FeatureCache.cachedPath_of_isSource isSource, Path.place_below _ isSource.2]

section

variable {sources : List Path} {other : Path} {others : List Text} {entry : Entry}

/-- A cached form is taken as before after another file was built. -/
theorem taken?_buildFile {allowed : Bool} (listed : Listed preparation.config sources)
    (member : source ∈ sources) (memberOther : other ∈ sources) (differ : source ≠ other)
    (isSource : preparation.config.IsSource source names)
    (isOther : preparation.config.IsSource other others) (tree : workspace.disk.IsTree)
    (disjoint : preparation.config.Disjoint workspace)
    (stands : workspace.disk.entry? (source.place workspace.disk.current) = some entry)
    (dated : Dated workspace.disk.clock
      (buildFile preparation reuseAllowed other workspace).2.disk.clock)
    : taken? preparation allowed source (buildFile preparation reuseAllowed other workspace).2
      = taken? preparation allowed source workspace := by
  have frame := (confined_buildFile reuseAllowed workspace isOther).frame
  refine taken?_of_frame frame tree (down_cachedPath disjoint isSource) ?_
    (known?_buildFile tree disjoint isOther differ dated) ?_
  · intro upper above changes
    rw [place_cachedPath isSource] at above
    rcases (changes_fileTerritory_iff isOther.2).mp changes with rfl | rfl | ⟨path, isRecord, rfl⟩
    · exact disjoint.output_cache.not_both ((List.prefix_append _ _).trans above)
        (List.prefix_append _ _)
    · have same := listed.prefixFree other memberOther source member others names isOther isSource
        ((List.prefix_append_right_inj _).mp above)
      exact differ (by rw [isSource.1, isOther.1, same])
    · exact (disjoint.cache_document (metadata_mem_documentPaths isRecord)).symm.not_both above
        (List.prefix_append _ _)
  · refine modified_of_beside frame tree disjoint isSource ?_ stands
    exact ((fileWithinFiles isOther.2 preparation.config workspace).trans
      (filesWithinBuild _ workspace)).beside (beside_authored disjoint (Or.inl rfl))

/-- What is known of a source stays when the record is not changed. -/
theorem known?_of_clears {bounds : Disk.Territory} {disk : Disk}
    (frame : Disk.Frame bounds workspace.disk disk) (tree : workspace.disk.IsTree)
    (disjoint : config.Disjoint workspace)
    (clears : ∀ path, workspace.metadata.file? = some path →
      bounds.Clears (path.place workspace.disk.current))
    : known? source { workspace with disk } = known? source workspace := by
  unfold known?
  rw [Store.loadUsable_congr fun path isRecord text => frame.read_iff_of_clears tree
    (disjoint.down_document (metadata_mem_documentPaths isRecord)) (clears path isRecord)]

/-- A cached form is taken as before after the output tree was emptied. -/
theorem taken?_of_reset {disk : Disk}
    (frame : Disk.Frame (resetTerritory preparation.config workspace) workspace.disk disk)
    (tree : workspace.disk.IsTree) (disjoint : preparation.config.Disjoint workspace)
    (isSource : preparation.config.IsSource source names)
    (stands : workspace.disk.entry? (source.place workspace.disk.current) = some entry)
    : taken? preparation reuseAllowed source { workspace with disk }
      = taken? preparation reuseAllowed source workspace := by
  refine taken?_of_frame frame tree (down_cachedPath disjoint isSource) ?_ ?_ ?_
  · rw [place_cachedPath isSource]
    exact ((beside_resetTerritory disjoint disjoint.output_cache).lower (List.prefix_append _ _)).clears
  · exact known?_of_clears frame tree disjoint fun path isRecord =>
      (beside_resetTerritory disjoint
        (disjoint.output_document (metadata_mem_documentPaths isRecord))).clears
  · exact modified_of_beside frame tree disjoint isSource
      ((resetWithinBuild _ workspace).beside (beside_authored disjoint (Or.inl rfl))) stands

/-- A cached form is taken as before after it was copied. -/
theorem taken?_restore (cached : Path) (tree : workspace.disk.IsTree)
    (disjoint : preparation.config.Disjoint workspace)
    (isSource : preparation.config.IsSource source names)
    (stands : workspace.disk.entry? (source.place workspace.disk.current) = some entry)
    : taken? preparation reuseAllowed source (restore preparation source cached workspace).2
      = taken? preparation reuseAllowed source workspace := by
  have frame := (confined_restore workspace cached isSource).frame
  refine taken?_of_frame frame tree (down_cachedPath disjoint isSource) ?_
    (known?_restore tree disjoint isSource cached) ?_
  · rw [place_cachedPath isSource]
    intro upper above changes
    rw [Disk.Territory.changes_written_iff, Path.place_below _ isSource.2] at changes
    rw [changes] at above
    exact disjoint.output_cache.not_both ((List.prefix_append _ _).trans above) (List.prefix_append _ _)
  · refine modified_of_beside frame tree disjoint isSource ?_ stands
    exact ((withinOutput _ _ workspace).trans ((fileWithinFiles isSource.2 _ workspace).trans
      (filesWithinBuild _ workspace))).beside (beside_authored disjoint (Or.inl rfl))

end

end FeaturePress.Build
