import FeaturePress.Proofs.Project.Freshness
import FeaturePress.Proofs.Project.Outputs
import FeaturePress.Proofs.Project.ReuseHistory

/-! Building again when nothing has changed. The step groups are found fresh, the same files are listed, and
they are prepared alike, so the second build differs from the first in the cached forms that it takes only.
-/

namespace FeaturePress

-----------------------------------------------------------------------------------------
-- Step groups that stay fresh
-----------------------------------------------------------------------------------------

namespace Refresh

variable {files : StepGroupFiles} {bounds : Disk.Territory} {early late : Disk} {found : List Source}
  {times : ArtifactTimes}

theorem recordedTime_of_beside (frame : Disk.Frame bounds early late) (tree : early.IsTree) {path : Path}
    (down : path.Down) (beside : bounds.Beside (path.place early.current))
    (stands : early.entry? (path.place early.current) ≠ none)
    : late.recordedTime path = early.recordedTime path := by
  obtain ⟨entry, stands⟩ := Option.ne_none_iff_exists'.mp stands
  unfold Disk.recordedTime Disk.modified
  rw [frame.find_eq_of_clears tree down beside.clears stands (Or.inr beside.not_touches)]

/-- After a change beside the step-group documents and the artifacts the same is seen, if both artifacts
have stood.
-/
theorem Sees.of_beside (sees : Sees files early found times) (frame : Disk.Frame bounds early late)
    (tree : early.IsTree)
    (beside : ∀ path ∈ [files.sourceDirectory, files.catalog, files.bindings],
      path.Down ∧ bounds.Beside (path.place early.current))
    (bindings : times.bindings ≠ none) (catalog : times.catalog ≠ none)
    : Sees files late found times := by
  obtain ⟨down, besideDocuments⟩ := beside files.sourceDirectory (by simp)
  obtain ⟨timedBindings, timedCatalog⟩ := artifactTimes_eq_ok_iff.mp sees.artifacts
  have artifact (path : Path) (isArtifact : path ∈ [files.catalog, files.bindings]) (time : Option Nat)
      (timed : early.recordedTime path = .ok time) (known : time ≠ none)
      : late.recordedTime path = .ok time := by
    obtain ⟨moment, rfl⟩ := Option.ne_none_iff_exists'.mp known
    obtain ⟨entry, found, -⟩ := Disk.recordedTime_eq_some_iff.mp timed
    obtain ⟨downPath, besidePath⟩ := beside path (List.mem_cons_of_mem _ isArtifact)
    rw [recordedTime_of_beside frame tree downPath besidePath (by simp [Disk.find_eq_ok found]), timed]
  refine ⟨?_, artifactTimes_eq_ok_iff.mpr ⟨artifact _ (by simp) _ timedBindings bindings,
    artifact _ (by simp) _ timedCatalog catalog⟩⟩
  obtain ⟨paths, met, each⟩ := sources_eq_ok_iff.mp sees.documents
  refine sources_eq_ok_iff.mpr ⟨paths, ?_, ?_⟩
  · rw [frame.featureFiles_of_beside tree down besideDocuments, met]
  · refine List.forall₂_iff_get.mpr ⟨each.length_eq, fun index bound boundFound => ?_⟩
    rw [← (List.forall₂_iff_get.mp each).2 index bound boundFound]
    obtain ⟨names, entry, isPath, proper, stands, -⟩ :=
      Disk.file_of_mem_featureFiles tree.proper met (List.get_mem paths ⟨index, bound⟩)
    have beside : bounds.Beside ((paths.get ⟨index, bound⟩).place early.current) := by
      rw [isPath, Path.place_along _ proper]
      exact besideDocuments.lower (List.prefix_append _ _)
    unfold sourceAt
    rw [recordedTime_of_beside frame tree (isPath ▸ down.along proper) beside
      (by rw [stands]; exact Option.some_ne_none _)]

/-- The record of times can be kept: its store loads what was saved to it, what stands at its document
can be read, and a record that is there has the times of both artifacts.
-/
structure KeepsRecord (workspace : Workspace) : Prop where
  loads : ∀ saves, workspace.provenance ≠ .corrupted saves
  readable : ∀ path entry, workspace.provenance.file? = some path →
    workspace.disk.entry? (path.place workspace.disk.current) = some entry → entry.access.readable = true
  complete : ∀ record, workspace.provenance.loadUsable workspace.disk = some record →
    record.find? Provenance.bindingsKey ≠ none ∧ record.find? Provenance.catalogKey ≠ none

/-- The record of the present times has those of artifacts that are found. -/
theorem complete_presentRecord {record : Provenance} (ok : presentRecord files found early = .ok record)
    (bindings : ∃ entry, early.find files.bindings = .ok entry)
    (catalog : ∃ entry, early.find files.catalog = .ok entry)
    : record.find? Provenance.bindingsKey ≠ none ∧ record.find? Provenance.catalogKey ≠ none := by
  obtain ⟨base, times, -, timed, rfl⟩ := presentRecord_eq_ok ok
  obtain ⟨timedBindings, timedCatalog⟩ := artifactTimes_eq_ok_iff.mp timed
  obtain ⟨entry, foundBindings⟩ := bindings
  obtain ⟨other, foundCatalog⟩ := catalog
  have known := Except.ok.inj (timedBindings.symm.trans
    (Disk.recordedTime_eq_some_iff.mpr ⟨entry, foundBindings, rfl⟩))
  have knownCatalog := Except.ok.inj (timedCatalog.symm.trans
    (Disk.recordedTime_eq_some_iff.mpr ⟨other, foundCatalog, rfl⟩))
  have differ : Provenance.bindingsKey ≠ Provenance.catalogKey := by decide
  simp [find?_setArtifacts, differ, known, knownCatalog]

/-- A refresh that succeeds leaves a record that loads and has the times of both artifacts. -/
theorem exists_record_of_run {force : Bool} {before after : Workspace} {outcome : Refresh}
    (keeps : KeepsRecord before) (placed : Placed files before)
    (ran : run files force before = .ok outcome after)
    : ∃ record, after.provenance.loadUsable after.disk = some record
        ∧ record.find? Provenance.bindingsKey ≠ none ∧ record.find? Provenance.catalogKey ≠ none := by
  obtain ⟨found, times, listed, timed, result⟩ := run_eq_ok ran
  rcases result with ⟨-, fresh, rfl⟩ | ⟨scope, documents, start, catalog, -, -, ok⟩
  · obtain ⟨-, record, loaded, -⟩ := (eq_fresh_iff ⟨listed, timed⟩ ran).mp fresh
    exact ⟨record, loaded, keeps.complete record loaded⟩
  · obtain ⟨catalogWritten, bindingsWritten, first, second, record, wrote, bound, present, saved, -, -⟩ :=
      regenerate_eq_ok ok
    obtain ⟨-, grows⟩ := grows_artifacts wrote bound
    obtain ⟨entry, foundCatalog, -⟩ := found_of_writeIfChanged wrote
    obtain ⟨other, foundBindings, -⟩ := found_of_writeIfChanged bound
    have growsBindings : Disk.Grows (· = files.bindings.place first.current) first second :=
      Disk.grows_writeIfChanged rfl bound
    obtain ⟨later, foundLater, -⟩ := growsBindings.find foundCatalog
    exact ⟨record, Store.loadUsable_of_save saved (fun _ _ => readsBack_presentRecord present) keeps.loads
        fun path standing isRecord => grows.mayRead (fun earlier => keeps.readable path earlier isRecord) standing,
      complete_presentRecord present ⟨other, foundBindings⟩ ⟨later, foundLater⟩⟩

/-- After a refresh that succeeds, and changes beside the step-group documents and the artifacts which keep
the record, the next refresh does nothing.
-/
theorem fresh_of_beside {force : Bool} {before after later : Workspace} {outcome : Refresh}
    (tree : before.disk.IsTree) (direct : before.disk.Direct files.sourceDirectory)
    (placed : Placed files before) (keeps : KeepsRecord before)
    (ran : run files force before = .ok outcome after) (treeAfter : after.disk.IsTree)
    (frame : Disk.Frame bounds after.disk later.disk)
    (beside : ∀ path ∈ [files.sourceDirectory, files.catalog, files.bindings],
      path.Down ∧ bounds.Beside (path.place after.disk.current))
    (kept : later.provenance.loadUsable later.disk = after.provenance.loadUsable after.disk)
    : run files false later = .ok .fresh later := by
  obtain ⟨record, loads, bindings, catalog⟩ := exists_record_of_run keeps placed ran
  obtain ⟨found, times, sees, describes, -⟩ := describes_of_run tree direct placed ran loads
  have seesLater := sees.of_beside frame treeAfter beside (describes.bindings ▸ bindings)
    (describes.catalog ▸ catalog)
  exact run_fresh seesLater (kept.trans loads) describes

end Refresh

namespace Build

variable {config : Config} {value : Text → Text} {force : Bool} {before refreshed created after : Workspace}
  {refresh : Refresh} {outcome : BuildOutcome} {found : List Path} {source : Path} {names : List Text}

-----------------------------------------------------------------------------------------
-- A build that has begun
-----------------------------------------------------------------------------------------

theorem frame_reset {emptied disk : Disk}
    (removed : before.disk.removeTree config.outputDirectory = (.ok (), emptied))
    (made : emptied.createDirectories config.outputDirectory = (.ok (), disk))
    : Disk.Frame (resetTerritory config before) before.disk disk := by
  have first := Disk.frame_removeTree before.disk config.outputDirectory
  have second := Disk.frame_createDirectories emptied config.outputDirectory
  rw [removed] at first
  rw [made, first.current] at second
  exact (first.mono (Disk.Territory.within_union_left _ _)).trans
    (second.mono (Disk.Territory.within_union_right _ _))

/-- What preparing a source reads stays outside what a build changes over such changes. -/
theorem spared_of_confined
    (spared : ∀ place, Reads config value before.disk source place →
      (territory config before).Spares before.disk place)
    (confined : Command.Confined (territory config before) before after)
    : ∀ place, Reads config value after.disk source place →
        (territory config after).Spares after.disk place := by
  intro place reads
  rw [reads_of_agree (confined.frame.agree.mono spared)] at reads
  rw [stable_territory config _ _ _ confined]
  exact confined.frame.spares_kept (spared place reads)

/-- A project whose features directory, if it stands, is a directory. Whatever preparing the listed files
reads stands outside what a build changes.
-/
structure Sound (config : Config) (value : Text → Text) (found : List Path) (workspace : Workspace)
    : Prop where
  tree : workspace.disk.IsTree
  disjoint : config.Disjoint workspace
  folder : ∀ entry, workspace.disk.entry? (config.featuresDirectory.place workspace.disk.current)
    = some entry → entry.isDirectory = true
  spared : ∀ source ∈ found, ∀ place, Reads config value workspace.disk source place →
    (territory config workspace).Spares workspace.disk place

namespace Sound

/-- A project is sound for a feature if the features directory stands and the build spares the feature. -/
theorem of_stands (tree : workspace.disk.IsTree) (disjoint : config.Disjoint workspace)
    (folder : (workspace.disk.entry? (config.featuresDirectory.place workspace.disk.current)).map
      Entry.isDirectory = some true)
    (spared : ∀ place, Reads config value workspace.disk source place →
      (territory config workspace).Spares workspace.disk place)
    : Sound config value [source] workspace := by
  refine ⟨tree, disjoint, fun entry stands => ?_, fun other member => ?_⟩
  · rw [stands] at folder
    exact Option.some.inj folder
  · obtain rfl := List.mem_singleton.mp member
    exact spared

/-- A project stays sound over the changes of a build. -/
theorem of_confined (sound : Sound config value found before)
    (confined : Command.Confined (territory config before) before after) (tree : after.disk.IsTree)
    : Sound config value found after := by
  refine ⟨tree, sound.disjoint.of_confined confined, fun entry stands => ?_, fun source member =>
    spared_of_confined (sound.spared source member) confined⟩
  rw [confined.frame.current] at stands
  by_contra isFile
  have beside := beside_authored sound.disjoint (Or.inl rfl)
  exact isFile (sound.folder entry (confined.frame.file_stood (beside.clears _ (List.prefix_refl _)) stands
    (by simpa using isFile)))

theorem of_refresh (sound : Sound config value found before)
    (ran : Refresh.run config.stepGroups force before = .ok refresh refreshed)
    : Command.Confined (territory config before) before refreshed ∧ Sound config value found refreshed := by
  have confined := (Refresh.confined_run config.stepGroups force before).ofOk ran
  have within := confined.mono ((refreshWithinReady config before).trans (readyWithinBuild config before))
  refine ⟨within, sound.of_confined within ?_⟩
  exact isTree_of_grows sound.tree (Refresh.grows_run ran) confined.frame
    (Refresh.isProper_territory sound.tree.proper _)

end Sound

/-- A build that has refreshed the step groups, listed the files and made the output tree anew. -/
structure Begun (config : Config) (value : Text → Text) (found : List Path) (created : Workspace) : Prop where
  sound : Sound config value found created
  renewed : Disk.Renewed config.outputDirectory created.disk
  listed : Listed config found
  stands : ∀ source ∈ found, created.disk.entry? (source.place created.disk.current) ≠ none

/-- When the files are listed and the output tree is made anew the project is sound still, nothing stands
in the output tree, and the listed files stand.
-/
theorem Sound.of_reset {inputs : List Path} {emptied disk : Disk} (sound : Sound config value inputs refreshed)
    (listing : refreshed.disk.featureFiles config.featuresDirectory [config.stepGroups.sourceDirectory]
      = .ok found)
    (removed : refreshed.disk.removeTree config.outputDirectory = (.ok (), emptied))
    (made : emptied.createDirectories config.outputDirectory = (.ok (), disk))
    : Sound config value inputs { refreshed with disk } ∧ Disk.Renewed config.outputDirectory disk
      ∧ Listed config found ∧ ∀ source ∈ found, disk.entry? (source.place disk.current) ≠ none := by
  have frame : Disk.Frame (resetTerritory config refreshed) refreshed.disk disk :=
    frame_reset removed made
  have confined : Command.Confined (territory config refreshed) refreshed { refreshed with disk } :=
    .ofFrame (frame.mono (resetWithinBuild config refreshed))
  have renewed := Disk.renewed_of_reset sound.tree sound.disjoint.down_output removed made
  refine ⟨sound.of_confined confined renewed.isTree, renewed,
    Listed.of_featureFiles sound.tree sound.folder listing, fun source member => ?_⟩
  obtain ⟨names, entry, isPath, proper, stands, -⟩ :=
    Disk.file_of_mem_featureFiles sound.tree.proper listing member
  have beside := (beside_authored sound.disjoint (Or.inl rfl)).lower (List.prefix_append _ names)
  rw [← Path.place_along _ proper, ← isPath] at beside
  rw [frame.current]
  exact confined.frame.stands_of_beside beside (by simp [stands])

namespace Begun

/-- A build begins when the files are listed and the output tree is made anew. -/
theorem of_reset {emptied disk : Disk} (sound : Sound config value found refreshed)
    (listing : refreshed.disk.featureFiles config.featuresDirectory [config.stepGroups.sourceDirectory]
      = .ok found)
    (removed : refreshed.disk.removeTree config.outputDirectory = (.ok (), emptied))
    (made : emptied.createDirectories config.outputDirectory = (.ok (), disk))
    : Begun config value found { refreshed with disk } := by
  obtain ⟨soundAfter, renewed, listed, stands⟩ := sound.of_reset listing removed made
  exact ⟨soundAfter, renewed, listed, stands⟩

theorem steady (begun : Begun config value found created) (catalog : Catalog) (member : source ∈ found)
    : Steady ⟨config, catalog, value⟩ source created where
  stands := begun.stands source member
  spared := fun place reads =>
    (filesWithinBuild config created).spares (begun.sound.spared source member place reads)

theorem underway (begun : Begun config value found created) : Underway config found found created :=
  .start begun.sound.tree begun.sound.disjoint begun.renewed begun.listed

end Begun

/-- What is generated of the example is kept apart, and so are its records if they are kept on the disk. -/
theorem Example.disjoint
    : Example.config.Disjoint { Example.unbuilt with
        provenance := .file Example.config.stepGroups.provenance
        metadata := .file Example.config.featureCache.metadata } :=
  ⟨by decide +kernel, by decide +kernel, by decide +kernel, by decide +kernel⟩

end Build

end FeaturePress
