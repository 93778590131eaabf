import FeaturePress.Proofs.Feature.Preparation
import FeaturePress.Proofs.Project.Build

/-! What building files leaves of cached forms and outputs. Where the generated trees and the documents
are kept apart, a source's output and its cached form are changed by building this source only: a
cached form is the one that was there before, or the text that was prepared.
-/

namespace FeaturePress

-----------------------------------------------------------------------------------------
-- Places that are kept apart
-----------------------------------------------------------------------------------------

/-- The documents that builds keep. -/
def documentPaths (config : Config) (workspace : Workspace) : List Path :=
  [config.stepGroups.catalog, config.stepGroups.bindings]
    ++ workspace.provenance.file?.toList ++ workspace.metadata.file?.toList

/-- Neither of the output tree and the cache lies within the other, and no document in one of them. -/
structure Config.Apart (config : Config) (workspace : Workspace) : Prop where
  cacheOutside : ¬ config.outputDirectory.place workspace.disk.current
    <+: config.featureCache.directory.place workspace.disk.current
  outputOutside : ¬ config.featureCache.directory.place workspace.disk.current
    <+: config.outputDirectory.place workspace.disk.current
  documents : ∀ path ∈ documentPaths config workspace,
    ¬ config.outputDirectory.place workspace.disk.current <+: path.place workspace.disk.current
      ∧ ¬ config.featureCache.directory.place workspace.disk.current
        <+: path.place workspace.disk.current

namespace Build

variable {config : Config} {preparation : Preparation} {workspace : Workspace} {source : Path}
  {names others : List Text} {place : Location}

theorem not_below_both (apart : config.Apart workspace)
    (output : config.outputDirectory.place workspace.disk.current <+: place)
    (cache : config.featureCache.directory.place workspace.disk.current <+: place)
    : False :=
  (List.prefix_or_prefix_of_prefix output cache).elim apart.cacheOutside apart.outputOutside

/-- Commands keep their documents where they are. -/
theorem documentPaths_of_confined {territory : Disk.Territory} {after : Workspace}
    (confined : Command.Confined territory workspace after)
    : documentPaths config after = documentPaths config workspace := by
  unfold documentPaths
  rw [confined.provenance, confined.metadata]

theorem apart_of_confined {territory : Disk.Territory} {after : Workspace}
    (apart : config.Apart workspace) (confined : Command.Confined territory workspace after)
    : config.Apart after := by
  refine ⟨?_, ?_, ?_⟩ <;> rw [confined.frame.current]
  · exact apart.cacheOutside
  · exact apart.outputOutside
  · rw [documentPaths_of_confined confined]
    exact apart.documents

/-- Building a file changes its output, its cached form and the record of the cache. -/
theorem changes_fileTerritory_iff (proper : ∀ name ∈ names, IsName name)
    : (fileTerritory config names workspace).Changes place
      ↔ place = config.outputDirectory.place workspace.disk.current ++ names
        ∨ place = config.featureCache.directory.place workspace.disk.current ++ names
        ∨ ∃ path, workspace.metadata.file? = some path
          ∧ place = path.place workspace.disk.current := by
  unfold fileTerritory
  rw [Disk.Territory.changes_union_iff, Disk.Territory.changes_union_iff,
    Disk.Territory.changes_written_iff, Disk.Territory.changes_written_iff,
    Store.changes_territory_iff, Path.place_below _ proper, Path.place_below _ proper, or_assoc]

/-- A refresh changes documents. -/
theorem changes_refreshTerritory
    (changes : (Refresh.territory config.stepGroups workspace).Changes place)
    : ∃ path ∈ documentPaths config workspace, place = path.place workspace.disk.current := by
  unfold Refresh.territory at changes
  simp only [Disk.Territory.changes_union_iff, Disk.Territory.changes_written_iff,
    Store.changes_territory_iff] at changes
  rcases changes with (same | same) | ⟨path, isRecord, same⟩
  · exact ⟨config.stepGroups.catalog, by simp [documentPaths], same⟩
  · exact ⟨config.stepGroups.bindings, by simp [documentPaths], same⟩
  · exact ⟨path, by simp [documentPaths, isRecord], same⟩

/-- Getting ready for a build changes documents and what stands below the output directory. -/
theorem changes_readyTerritory (changes : (readyTerritory config workspace).Changes place)
    : config.outputDirectory.place workspace.disk.current <+: place
      ∨ ∃ path ∈ documentPaths config workspace, place = path.place workspace.disk.current := by
  unfold readyTerritory at changes
  simp only [Disk.Territory.changes_union_iff] at changes
  rcases changes with (refreshed | below) | way
  · exact Or.inr (changes_refreshTerritory refreshed)
  · exact Or.inl (below.elim id False.elim)
  · exact absurd way fun changes => changes.elim id id

/-- Getting ready for a build changes no cached form. -/
theorem cached_outside_ready (apart : config.Apart workspace)
    : ¬ (readyTerritory config workspace).Changes
        (config.featureCache.directory.place workspace.disk.current ++ names) := by
  intro changes
  rcases changes_readyTerritory changes with below | ⟨path, isDocument, same⟩
  · exact not_below_both apart below (List.prefix_append ..)
  · exact (apart.documents path isDocument).2 (same ▸ List.prefix_append ..)

theorem not_record_of_cached (apart : config.Apart workspace)
    : ¬ (workspace.metadata.territory workspace.disk.current).Changes
        (config.featureCache.directory.place workspace.disk.current ++ names) := by
  rw [Store.changes_territory_iff]
  rintro ⟨path, isRecord, same⟩
  have listed : path ∈ documentPaths config workspace := by simp [documentPaths, isRecord]
  exact (apart.documents path listed).2 (same ▸ List.prefix_append ..)

theorem not_record_of_output (apart : config.Apart workspace)
    : ¬ (workspace.metadata.territory workspace.disk.current).Changes
        (config.outputDirectory.place workspace.disk.current ++ names) := by
  rw [Store.changes_territory_iff]
  rintro ⟨path, isRecord, same⟩
  have listed : path ∈ documentPaths config workspace := by simp [documentPaths, isRecord]
  exact (apart.documents path listed).1 (same ▸ List.prefix_append ..)

theorem not_output_of_cached (apart : config.Apart workspace) (proper : ∀ name ∈ others, IsName name)
    : ¬ (Disk.Territory.written workspace.disk.current (config.outputDirectory.below others)).Changes
        (config.featureCache.directory.place workspace.disk.current ++ names) := by
  rw [Disk.Territory.changes_written_iff, Path.place_below _ proper]
  intro same
  refine not_below_both apart ?_ (List.prefix_append _ names)
  rw [same]
  exact List.prefix_append ..

theorem not_cached_of_output (apart : config.Apart workspace) (proper : ∀ name ∈ others, IsName name)
    : ¬ (Disk.Territory.written workspace.disk.current
          (config.featureCache.directory.below others)).Changes
        (config.outputDirectory.place workspace.disk.current ++ names) := by
  rw [Disk.Territory.changes_written_iff, Path.place_below _ proper]
  intro same
  refine not_below_both apart (List.prefix_append _ names) ?_
  rw [same]
  exact List.prefix_append ..

/-- Building another file leaves a cached form alone. -/
theorem cached_outside (apart : config.Apart workspace) (proper : ∀ name ∈ others, IsName name)
    (differ : names ≠ others)
    : ¬ (fileTerritory config others workspace).Changes
        (config.featureCache.directory.place workspace.disk.current ++ names) := by
  unfold fileTerritory
  rw [Disk.Territory.changes_union_iff, Disk.Territory.changes_union_iff]
  rintro ((output | cached) | record)
  · exact not_output_of_cached apart proper output
  · rw [Disk.Territory.changes_written_iff, Path.place_below _ proper] at cached
    exact differ (List.append_cancel_left cached)
  · exact not_record_of_cached apart record

/-- Building another file leaves an output alone. -/
theorem output_outside (apart : config.Apart workspace) (proper : ∀ name ∈ others, IsName name)
    (differ : names ≠ others)
    : ¬ (fileTerritory config others workspace).Changes
        (config.outputDirectory.place workspace.disk.current ++ names) := by
  unfold fileTerritory
  rw [Disk.Territory.changes_union_iff, Disk.Territory.changes_union_iff]
  rintro ((output | cached) | record)
  · rw [Disk.Territory.changes_written_iff, Path.place_below _ proper] at output
    exact differ (List.append_cancel_left output)
  · exact not_cached_of_output apart proper cached
  · exact not_record_of_output apart record

/-- Building files among which a source is not leaves its cached form and its output alone. -/
theorem outside_of_not_mem {sources : List Path} (apart : config.Apart workspace)
    (isSource : config.IsSource source names) (absent : source ∉ sources)
    : ¬ (sourcesTerritory config sources workspace).Changes
          (config.featureCache.directory.place workspace.disk.current ++ names)
      ∧ ¬ (sourcesTerritory config sources workspace).Changes
          (config.outputDirectory.place workspace.disk.current ++ names) := by
  have differ (index : List Text) (chosen : ∃ other ∈ sources, config.IsSource other index)
      : names ≠ index := by
    rintro rfl
    obtain ⟨other, member, isOther⟩ := chosen
    exact absent (isSource.1.trans isOther.1.symm ▸ member)
  unfold sourcesTerritory
  rw [Disk.Territory.changes_any_iff, Disk.Territory.changes_any_iff]
  constructor <;> rintro ⟨index, ⟨other, member, isOther⟩, changes⟩
  · exact cached_outside apart isOther.2 (differ index ⟨other, member, isOther⟩) changes
  · exact output_outside apart isOther.2 (differ index ⟨other, member, isOther⟩) changes

/-- A build changes the output tree, the cached forms and documents. -/
theorem changes_territory_iff
    : (territory config workspace).Changes place
      ↔ config.outputDirectory.place workspace.disk.current <+: place
        ∨ config.featureCache.directory.place workspace.disk.current <+: place
        ∨ ∃ path ∈ documentPaths config workspace, place = path.place workspace.disk.current := by
  unfold territory filesTerritory
  simp only [Disk.Territory.changes_union_iff, Store.changes_territory_iff]
  constructor
  · rintro ((refreshed | old) | (new | form) | ⟨path, isRecord, same⟩)
    · exact Or.inr (Or.inr (changes_refreshTerritory refreshed))
    · exact Or.inl (old.elim id False.elim)
    · exact Or.inl (new.elim False.elim id)
    · exact Or.inr (Or.inl (form.elim False.elim id))
    · exact Or.inr (Or.inr ⟨path, by simp [documentPaths, isRecord], same⟩)
  · rintro (output | cache | ⟨path, isDocument, rfl⟩)
    · exact Or.inl (Or.inr (Or.inl output))
    · exact Or.inr (Or.inl (Or.inr (Or.inr cache)))
    · unfold Refresh.territory
      simp only [Disk.Territory.changes_union_iff, Disk.Territory.changes_written_iff,
        Store.changes_territory_iff]
      simp only [documentPaths, List.mem_append, List.mem_cons, List.not_mem_nil, or_false,
        Option.mem_toList] at isDocument
      rcases isDocument with ((rfl | rfl) | isRecord) | isRecord
      · exact Or.inl (Or.inl (Or.inl (Or.inl rfl)))
      · exact Or.inl (Or.inl (Or.inl (Or.inr rfl)))
      · exact Or.inl (Or.inl (Or.inr ⟨path, isRecord, rfl⟩))
      · exact Or.inr (Or.inr ⟨path, isRecord, rfl⟩)

/-- A build spares what stands outside the generated trees and is no document. -/
theorem spares_of_outside
    (output : ¬ config.outputDirectory.place workspace.disk.current <+: place)
    (cache : ¬ config.featureCache.directory.place workspace.disk.current <+: place)
    (documents : ∀ path ∈ documentPaths config workspace,
      place ≠ path.place workspace.disk.current)
    (stands : workspace.disk.entry? place ≠ none)
    : (territory config workspace).Spares workspace.disk place := by
  refine ⟨fun changes => ?_, fun _ => stands⟩
  rcases changes_territory_iff.mp changes with below | below | ⟨path, isDocument, same⟩
  · exact output below
  · exact cache below
  · exact documents path isDocument same

-----------------------------------------------------------------------------------------
-- Cached forms
-----------------------------------------------------------------------------------------

/-- A file that stands at a place stood there before, or has one of the texts that may be written. -/
def Remade (written : Text → Prop) (place : Location) (before after : Disk) : Prop :=
  ∀ content, after.content? place = some content →
    after.entry? place = before.entry? place ∨ ∃ text, written text ∧ content = .text text

theorem Remade.refl (written : Text → Prop) (place : Location) (disk : Disk)
    : Remade written place disk disk :=
  fun _ _ => Or.inl rfl

theorem Remade.trans {written : Text → Prop} {first second third : Disk}
    (before : Remade written place first second) (after : Remade written place second third)
    : Remade written place first third := by
  intro content holds
  rcases after content holds with same | made
  · have earlier : second.content? place = some content := by
      rw [Disk.content?, ← same]
      exact holds
    exact (before content earlier).imp_left same.trans
  · exact Or.inr made

theorem Remade.ofFrame {written : Text → Prop} {territory : Disk.Territory} {before after : Disk}
    (frame : Disk.Frame territory before after) (outside : ¬ territory.Changes place)
    : Remade written place before after := by
  intro content holds
  obtain ⟨entry, stands, isContent⟩ := Disk.content?_eq_some_iff.mp holds
  left
  rw [stands, frame.file_stood outside stands (Entry.isDirectory_of_content? isContent)]

theorem Remade.ofWrote {written : Text → Prop} {path : Path} {text : Text} {before after : Disk}
    (wrote : Disk.Wrote path (.text text) before after) (may : written text)
    : Remade written (path.place before.current) before after := by
  intro content holds
  rw [wrote.stands, Option.some.injEq] at holds
  exact Or.inr ⟨text, may, holds.symm⟩

/-- A source that is prepared with success has its text written to its output. -/
theorem prepare_eq_ok {disk written : Disk} {target : Path} {content : Text}
    (ok : preparation.run disk source = (.ok (target, content), written))
    : preparation.outputPath source = .ok target ∧ preparation.prepared disk source = .ok content
      ∧ Disk.Wrote target (.text content) disk written := by
  unfold Preparation.run at ok
  split at ok
  · simp at ok
  · next path isTarget =>
      split at ok
      · simp at ok
      · next text prepared =>
          split at ok
          · next last wrote =>
              simp only [Prod.mk.injEq, Except.ok.injEq] at ok
              obtain ⟨⟨rfl, rfl⟩, rfl⟩ := ok
              exact ⟨isTarget, prepared, Disk.wrote_of_write wrote⟩
          · simp at ok

/-- The cached form of a source is written when the source is prepared, and with this text only. -/
theorem remade_cache (apart : config.Apart workspace) (isSource : config.IsSource source names)
    {content : Text} {written : Text → Prop} (may : written content)
    : Remade written (config.featureCache.directory.place workspace.disk.current ++ names)
        workspace.disk (cache config source content workspace).disk := by
  rcases cache_cases config source content workspace with
    same | ⟨-, -, outcome, disk, wrote, result⟩
  · rw [same]
    exact Remade.refl _ _ _
  rw [FeatureCache.cachedPath_of_isSource isSource] at wrote result
  rcases result with ⟨error, rfl, failed⟩ | ⟨rfl, recorded⟩
  · rw [failed]
    exact Remade.ofFrame (Disk.frame_write_of_error wrote) (fun changes => changes.elim id id)
  · have wrote := Disk.wrote_of_write wrote
    have first := Remade.ofWrote wrote may
    rw [Path.place_below _ isSource.2] at first
    have second := (confined_record { workspace with disk } source
      (config.featureCache.directory.below names)).frame
    rw [recorded]
    refine first.trans (Remade.ofFrame second ?_)
    have same : disk.current = workspace.disk.current := wrote.frame.current
    simpa only [same] using not_record_of_cached apart

/-- Caching a prepared source leaves its output alone. -/
theorem content?_cache (apart : config.Apart workspace) (isSource : config.IsSource source names)
    (content : Text)
    : (cache config source content workspace).disk.content?
        (config.outputDirectory.place workspace.disk.current ++ names)
      = workspace.disk.content? (config.outputDirectory.place workspace.disk.current ++ names) := by
  rcases cache_cases config source content workspace with
    same | ⟨-, -, outcome, written, wrote, ⟨error, rfl, failed⟩ | ⟨rfl, recorded⟩⟩
  · rw [same]
  · rw [failed]
    exact (Disk.frame_write_of_error wrote).content?_of_way _
  · have frame := (Disk.wrote_of_write wrote).frame
    have confined : Command.Confined _ workspace { workspace with disk := written } := .ofFrame frame
    have saved := confined_record { workspace with disk := written } source
      (FeatureCache.cachedPath config source)
    rw [FeatureCache.cachedPath_of_isSource isSource] at frame
    rw [recorded, ← frame.content?_kept (not_cached_of_output apart isSource.2),
      ← frame.current]
    exact saved.frame.content?_kept (not_record_of_output (apart_of_confined apart confined))

/-- Preparing a source leaves its cached form or makes it of the prepared text. -/
theorem remade_process (apart : preparation.config.Apart workspace)
    (isSource : preparation.config.IsSource source names)
    : Remade (preparation.prepared workspace.disk source = .ok ·)
        (preparation.config.featureCache.directory.place workspace.disk.current ++ names)
        workspace.disk (process preparation source workspace).2.disk := by
  have frame := frame_prepare workspace.disk isSource
  unfold process
  rcases ran : preparation.run workspace.disk source with ⟨outcome, disk⟩
  rw [ran] at frame
  have first : Remade (preparation.prepared workspace.disk source = .ok ·)
      (preparation.config.featureCache.directory.place workspace.disk.current ++ names)
      workspace.disk disk :=
    .ofFrame frame (not_output_of_cached apart isSource.2)
  cases outcome with
  | error error => exact first
  | ok result =>
      obtain ⟨target, content⟩ := result
      obtain ⟨-, prepared, -⟩ := prepare_eq_ok ran
      have confined : Command.Confined _ workspace { workspace with disk } :=
        Command.Confined.ofFrame frame
      have same : disk.current = workspace.disk.current := frame.current
      have second : Remade (preparation.prepared workspace.disk source = .ok ·)
          (preparation.config.featureCache.directory.place disk.current ++ names) disk
          (cache preparation.config source content { workspace with disk }).disk :=
        remade_cache (apart_of_confined apart confined) isSource prepared
      rw [same] at second
      exact first.trans second

-----------------------------------------------------------------------------------------
-- Files that are taken from the cache
-----------------------------------------------------------------------------------------

/-- A restored file has its output written with the text of its cached form. -/
theorem restore_eq_true {cached : Path} {after : Workspace}
    (isSource : preparation.config.IsSource source names)
    (done : restore preparation source cached workspace = (true, after))
    : ∃ text, workspace.disk.read cached = .ok text
        ∧ Disk.Wrote (preparation.config.outputDirectory.below names) (.text text) workspace.disk
          after.disk
        ∧ after = { workspace with disk := after.disk } := by
  unfold restore at done
  rw [Preparation.outputPath_of_isSource isSource] at done
  dsimp only at done
  unfold Disk.copy at done
  cases hread : workspace.disk.read cached with
  | error cause => simp [hread, Except.isOk, Except.toBool] at done
  | ok text =>
      rw [hread] at done
      dsimp only at done
      rcases wrote : workspace.disk.write (preparation.config.outputDirectory.below names) (.text text)
        with ⟨outcome, disk⟩
      rw [wrote] at done
      obtain ⟨succeeded, rfl⟩ := Prod.mk.inj done
      cases outcome with
      | error error => simp [Except.isOk, Except.toBool] at succeeded
      | ok _ => exact ⟨text, rfl, Disk.wrote_of_write wrote, rfl⟩

theorem process_ne_reused : (process preparation source workspace).1 ≠ .reused := by
  unfold process
  split <;> simp

/-- What becomes of a file: it is restored from a cached form that may be taken, or it is prepared,
perhaps after it could not be restored.
-/
theorem buildFile_cases (preparation : Preparation) (reuseAllowed : Bool) (source : Path)
    (workspace : Workspace)
    : (∃ restored, reuseAllowed = true
        ∧ FeatureCache.isReusable preparation.config workspace.disk workspace.metadata source
          (FeatureCache.cachedPath preparation.config source) = true
        ∧ restore preparation source (FeatureCache.cachedPath preparation.config source) workspace
          = (true, restored)
        ∧ buildFile preparation reuseAllowed source workspace = (.reused, restored))
      ∨ (∃ restored, restore preparation source
            (FeatureCache.cachedPath preparation.config source) workspace = (false, restored)
        ∧ buildFile preparation reuseAllowed source workspace
          = process preparation source restored)
      ∨ buildFile preparation reuseAllowed source workspace
          = process preparation source workspace := by
  unfold buildFile
  dsimp only
  split
  · next allowed =>
      obtain ⟨allowed, reusable⟩ := (Bool.and_eq_true ..).mp allowed
      split
      · next restored done => exact Or.inl ⟨restored, allowed, reusable, done, rfl⟩
      · next restored failed => exact Or.inr (Or.inl ⟨restored, failed, rfl⟩)
  · exact Or.inr (Or.inr rfl)

/-- A cached form that is read stands as many names below the cache directory as its source does below the
features directory.
-/
theorem content?_of_read_cached {disk : Disk} {text : Text} (isSource : config.IsSource source names)
    (reads : disk.read (FeatureCache.cachedPath config source) = .ok text)
    : disk.content? (config.featureCache.directory.place disk.current ++ names) = some (.text text) := by
  have stands := Disk.content?_of_read reads
  rwa [FeatureCache.cachedPath_of_isSource isSource, Path.place_below _ isSource.2] at stands

/-- A file that is reused has the text of its cached form as its output. -/
theorem content?_of_buildFile_reused {reuseAllowed : Bool}
    (isSource : preparation.config.IsSource source names)
    (reused : (buildFile preparation reuseAllowed source workspace).1 = .reused)
    : ∃ text,
        workspace.disk.content?
            (preparation.config.featureCache.directory.place workspace.disk.current ++ names)
          = some (.text text)
        ∧ (buildFile preparation reuseAllowed source workspace).2.disk.content?
            (preparation.config.outputDirectory.place workspace.disk.current ++ names)
          = some (.text text) := by
  rcases buildFile_cases preparation reuseAllowed source workspace with
    ⟨restored, -, -, done, built⟩ | ⟨restored, -, built⟩ | built
  · obtain ⟨text, reads, wrote, -⟩ := restore_eq_true isSource done
    refine ⟨text, ?_, ?_⟩
    · exact content?_of_read_cached isSource reads
    · rw [built]
      have output := wrote.stands
      rwa [Path.place_below _ isSource.2] at output
  · exact absurd (built ▸ reused) process_ne_reused
  · exact absurd (built ▸ reused) process_ne_reused

/-- Building a source leaves its cached form or makes it of the prepared text. -/
theorem remade_buildFile (reuseAllowed : Bool) (apart : preparation.config.Apart workspace)
    (isSource : preparation.config.IsSource source names)
    (spared : ∀ place, preparation.Reads workspace.disk source place →
      (fileTerritory preparation.config names workspace).Spares workspace.disk place)
    : Remade (preparation.prepared workspace.disk source = .ok ·)
        (preparation.config.featureCache.directory.place workspace.disk.current ++ names)
        workspace.disk (buildFile preparation reuseAllowed source workspace).2.disk := by
  have confined := confined_restore workspace
    (FeatureCache.cachedPath preparation.config source) isSource
  rcases buildFile_cases preparation reuseAllowed source workspace with
    ⟨restored, -, -, done, built⟩ | ⟨restored, failed, built⟩ | built
  · obtain ⟨text, reads, wrote, -⟩ := restore_eq_true isSource done
    rw [built]
    exact Remade.ofFrame wrote.frame (not_output_of_cached apart isSource.2)
  · rw [failed] at confined
    have agree := confined.frame.agree.mono fun place reads =>
      (withinOutput preparation.config names workspace).spares (spared place reads)
    have first : Remade (preparation.prepared workspace.disk source = .ok ·)
        (preparation.config.featureCache.directory.place workspace.disk.current ++ names)
        workspace.disk restored.disk :=
      .ofFrame confined.frame (not_output_of_cached apart isSource.2)
    have second := remade_process (apart_of_confined apart confined) isSource
    rw [Preparation.prepared_of_agree agree, confined.frame.current] at second
    rw [built]
    exact first.trans second
  · rw [built]
    exact remade_process apart isSource

/-- Building files leaves the cached form of a source or makes it of the prepared text, by induction
on the files.
-/
theorem remade_buildFiles (reuseAllowed : Bool) {sources : List Path} {workspace : Workspace}
    (areSources : ∀ other ∈ sources, ∃ names, preparation.config.IsSource other names)
    (apart : preparation.config.Apart workspace)
    (isSource : preparation.config.IsSource source names)
    (spared : ∀ place, preparation.Reads workspace.disk source place →
      (filesTerritory preparation.config workspace).Spares workspace.disk place)
    : Remade (preparation.prepared workspace.disk source = .ok ·)
        (preparation.config.featureCache.directory.place workspace.disk.current ++ names)
        workspace.disk (buildFiles preparation reuseAllowed sources workspace).2.disk := by
  induction sources generalizing workspace with
  | nil => exact Remade.refl _ _ _
  | cons other rest ih =>
      obtain ⟨others, isOther⟩ := areSources other (List.mem_cons_self ..)
      have confined := confined_buildFile reuseAllowed workspace isOther
      have within := fileWithinFiles isOther.2 preparation.config workspace
      have agree := confined.frame.agree.mono fun place reads =>
        within.spares (spared place reads)
      have first : Remade (preparation.prepared workspace.disk source = .ok ·)
          (preparation.config.featureCache.directory.place workspace.disk.current ++ names)
          workspace.disk (buildFile preparation reuseAllowed other workspace).2.disk := by
        by_cases same : names = others
        · obtain rfl : other = source := by rw [isOther.1, isSource.1, same]
          exact remade_buildFile reuseAllowed apart isSource fun place reads =>
            (fileWithinFiles isSource.2 preparation.config workspace).spares (spared place reads)
        · exact Remade.ofFrame confined.frame (cached_outside apart isOther.2 same)
      have sparedAfter : ∀ place, preparation.Reads
          (buildFile preparation reuseAllowed other workspace).2.disk source place →
          (filesTerritory preparation.config
            (buildFile preparation reuseAllowed other workspace).2).Spares
            (buildFile preparation reuseAllowed other workspace).2.disk place := by
        intro place reads
        rw [Preparation.reads_of_agree agree] at reads
        rw [stable_filesTerritory preparation.config _ _ _ confined]
        exact (confined.mono within).frame.spares_kept (spared place reads)
      have later := ih (fun next member => areSources next (List.mem_cons_of_mem _ member))
        (apart_of_confined apart confined) sparedAfter
      rw [Preparation.prepared_of_agree agree, confined.frame.current] at later
      exact first.trans later

/-- A source that is reused has the text of its cached form as its output: building the files before it
leaves its cached form alone, and building those after it its output.
-/
theorem content?_of_buildFiles_reused {reuseAllowed : Bool} {sources : List Path}
    {workspace : Workspace} (once : sources.Nodup)
    (areSources : ∀ other ∈ sources, ∃ names, preparation.config.IsSource other names)
    (apart : preparation.config.Apart workspace)
    (isSource : preparation.config.IsSource source names)
    (reused : (source, .reused) ∈ (buildFiles preparation reuseAllowed sources workspace).1)
    : ∃ text,
        workspace.disk.content?
            (preparation.config.featureCache.directory.place workspace.disk.current ++ names)
          = some (.text text)
        ∧ (buildFiles preparation reuseAllowed sources workspace).2.disk.content?
            (preparation.config.outputDirectory.place workspace.disk.current ++ names)
          = some (.text text) := by
  obtain ⟨earlier, later, rfl, isReused, last⟩ := exists_turn reused
  obtain ⟨absent, -⟩ := List.nodup_cons.mp (List.nodup_middle.mp once)
  obtain ⟨absentEarly, absentLate⟩ := not_or.mp (mt List.mem_append.mpr absent)
  have before := confined_buildFiles reuseAllowed workspace fun other member =>
    areSources other (List.mem_append_left _ member)
  generalize (buildFiles preparation reuseAllowed earlier workspace).2 = between at before isReused last
  have here := confined_buildFile reuseAllowed between isSource
  have after := confined_buildFiles reuseAllowed (buildFile preparation reuseAllowed source between).2
    fun other member => areSources other (List.mem_append_right _ (List.mem_cons_of_mem _ member))
  have apartAfter := apart_of_confined (apart_of_confined apart before) here
  have notBefore := (outside_of_not_mem apart isSource absentEarly).1
  have notAfter := (outside_of_not_mem apartAfter isSource absentLate).2
  obtain ⟨text, cached, output⟩ := content?_of_buildFile_reused isSource isReused
  rw [here.frame.current, before.frame.current] at notAfter
  rw [before.frame.current] at cached output
  refine ⟨text, ?_, ?_⟩
  · rw [← before.frame.content?_kept notBefore, cached]
  · rw [last, after.frame.content?_kept notAfter, output]

end Build

end FeaturePress
