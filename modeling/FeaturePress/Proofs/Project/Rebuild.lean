import FeaturePress.Proofs.Disk.Rewriting
import FeaturePress.Proofs.Project.Freshness

/-! Making everything again. What a forced refresh leaves is made of the documents only, whatever the
artifacts and the record were before, and doing it once more writes nothing.
-/

namespace FeaturePress

/-- A store that was saved can be saved again. -/
theorem Store.save_of_save {α : Type} [Storable α] {store last : Store α} {disk written : Disk} {value : α}
    (saved : store.save disk value = (.ok (), written, last)) (other : α)
    : ∃ again later, last.save written other = (.ok (), again, later) := by
  cases store with
  | file path =>
      obtain rfl : .file path = last := congrArg (·.2.2) saved
      have outcome : (Document.save disk path value).1 = .ok () := congrArg (·.1) saved
      have left : (Document.save disk path value).2 = written := congrArg (·.2.1) saved
      unfold Document.save at outcome left
      split at outcome
      · next wrote =>
          rw [wrote] at left
          obtain ⟨again, rewrote⟩ := Disk.write_of_write wrote (.text (Document.write other))
          refine ⟨again, .file path, ?_⟩
          rw [← left]
          unfold save Document.save
          dsimp only
          rw [rewrote]
      · simp at outcome
  | memory known saves =>
      obtain rfl : .memory (some value) (saves + 1) = last := congrArg (·.2.2) saved
      exact ⟨_, _, rfl⟩
  | corrupted saves =>
      obtain rfl : .corrupted (saves + 1) = last := congrArg (·.2.2) saved
      exact ⟨_, _, rfl⟩

namespace Refresh

variable {files : StepGroupFiles} {before after left right : Workspace} {disk early late : Disk}
  {found : List Source} {source : Source} {catalog : Catalog} {path : Path} {text : Text}

-----------------------------------------------------------------------------------------
-- Documents
-----------------------------------------------------------------------------------------

/-- The paths and the texts of some documents, in their order. -/
def texts (disk : Disk) (found : List Source) : List (Path × Option Text) :=
  found.map fun source => (source.path, (disk.read source.path).toOption)

/-- The groups that the text of a document declares. -/
def groupsIn (document : Path × Option Text) : List StepGroup :=
  match document.2 with
  | none => []
  | some text => ((StepGroup.ofDocument text document.1.spelling).toOption).getD []

/-- What documents declare depends on their paths and texts. -/
theorem declared_eq_flatMap_texts (disk : Disk) (found : List Source)
    : declared disk found = (texts disk found).flatMap groupsIn := by
  unfold declared texts
  rw [List.flatMap_map]
  congr 1
  funext source
  unfold groupsAt groupsIn
  cases disk.read source.path with
  | error error => rfl
  | ok text =>
      cases extracted : StepGroup.ofDocument text source.path.spelling <;>
        simp [Except.toOption, extracted]

/-- Documents that are listed and read alike declare the same groups. -/
theorem declared_congr {others : List Source} (listed : sources files disk = .ok found)
    (listedLater : sources files late = .ok others)
    (met : late.featureFiles files.sourceDirectory [] = disk.featureFiles files.sourceDirectory [])
    (reads : ∀ source ∈ found, late.read source.path = disk.read source.path)
    : declared late others = declared disk found := by
  have samePaths : others.map Source.path = found.map Source.path := by
    have late := featureFiles_of_sources listedLater
    rw [met, featureFiles_of_sources listed] at late
    exact (Except.ok.inj late).symm
  have byPaths (disk : Disk) (found : List Source)
      : texts disk found = (found.map Source.path).map fun path => (path, (disk.read path).toOption) := by
    simp [texts]
  have sameTexts : texts late others = texts disk found := by
    rw [byPaths, samePaths, ← byPaths]
    exact List.map_congr_left fun source member => by rw [reads source member]
  rw [declared_eq_flatMap_texts, sameTexts, ← declared_eq_flatMap_texts]

/-- The step-group documents can be read and are well-formed. -/
def DocumentsExtract (files : StepGroupFiles) (disk : Disk) : Prop :=
  ∀ paths, disk.featureFiles files.sourceDirectory [] = .ok paths → ∀ path ∈ paths,
    ∃ text groups, disk.read path = .ok text ∧ StepGroup.ofDocument text path.spelling = .ok groups

/-- A refresh of well-formed documents fails for errors of the disk only. -/
theorem isOfDisk_of_run_error {force : Bool} {error : CommandError}
    (extract : DocumentsExtract files before.disk)
    (failed : run files force before = .error error after)
    : error.IsOfDisk := by
  rcases run_eq_error failed with ⟨-, cause, rfl, -⟩ |
    ⟨found, times, scope, documents, start, listed, timed, planned, ⟨-, gathered⟩ |
      ⟨catalog, -, failed⟩⟩
  · trivial
  · have extracts : ∀ source ∈ documents, Extracts before.disk source := by
      intro source member
      refine extract _ (featureFiles_of_sources listed) _ (List.mem_map_of_mem ?_)
      exact subset_of_pending? listed planned member
    simp [gather_of_extracts extracts] at gathered
  · exact isOfDisk_of_regenerate_error failed

/-- Documents are read as before after a change that writes no feature file. -/
theorem read_of_grows {writes : Location → Prop} (grows : Disk.Grows writes early late)
    (tree : early.IsTree) (listed : sources files early = .ok found)
    (plain : ∀ names, writes (files.sourceDirectory.place early.current ++ names) →
      (files.sourceDirectory.along names).extension? ≠ some Disk.featureExtension)
    (member : source ∈ found) (reads : early.read source.path = .ok text)
    : late.read source.path = .ok text := by
  obtain ⟨entry, isFound⟩ := found_of_sources tree listed member
  obtain ⟨names, isDocument⟩ := isFound.isDocument
  exact grows.read reads (isDocument.plain plain)

-----------------------------------------------------------------------------------------
-- Times
-----------------------------------------------------------------------------------------

theorem timesOf_of_recordedTime
    (timed : ∀ source ∈ found, ∃ time, disk.recordedTime source.path = .ok time) (start : Provenance)
    : ∃ record, timesOf disk found start = .ok record := by
  induction found generalizing start with
  | nil => exact ⟨start, rfl⟩
  | cons first rest ih =>
      obtain ⟨time, here⟩ := timed first (List.mem_cons_self ..)
      have more := ih fun source member => timed source (List.mem_cons_of_mem _ member)
      unfold timesOf
      rw [here]
      cases time with
      | none => exact more start
      | some time => exact more _

/-- The present times are recorded where the documents and the artifacts are found. -/
theorem presentRecord_of_find (founds : ∀ source ∈ found, ∃ entry, Found files disk source entry)
    (catalog : ∃ entry, disk.find files.catalog = .ok entry)
    (bindings : ∃ entry, disk.find files.bindings = .ok entry)
    : (∃ times, artifactTimes files disk = .ok times)
      ∧ ∃ record, presentRecord files found disk = .ok record := by
  obtain ⟨catalogEntry, catalog⟩ := catalog
  obtain ⟨bindingsEntry, bindings⟩ := bindings
  have timed : artifactTimes files disk
      = .ok ⟨some (Disk.recorded bindingsEntry.modified), some (Disk.recorded catalogEntry.modified)⟩ :=
    artifactTimes_eq_ok_iff.mpr ⟨Disk.recordedTime_eq_some_iff.mpr ⟨_, bindings, rfl⟩,
      Disk.recordedTime_eq_some_iff.mpr ⟨_, catalog, rfl⟩⟩
  refine ⟨⟨_, timed⟩, ?_⟩
  obtain ⟨base, known⟩ := timesOf_of_recordedTime
    (fun source member => (founds source member).elim fun _ isFound => ⟨_, isFound.recordedTime⟩)
    SortedMap.empty
  unfold presentRecord
  rw [known, timed]
  exact ⟨_, rfl⟩

-----------------------------------------------------------------------------------------
-- Artifacts that are replaced
-----------------------------------------------------------------------------------------

/-- What stands at a path can be read, and its digest tells it from the text that is to stand there. -/
structure Replaceable (disk : Disk) (path : Path) (text : Text) : Prop where
  readable : ∀ entry, disk.entry? (path.place disk.current) = some entry → entry.access.readable = true
  tells : ∀ old, disk.content? (path.place disk.current) = some (.text old) →
    Text.digest old = Text.digest text → old = text

/-- Where nothing stands anything can be put. -/
theorem replaceable_of_vacant (vacant : disk.entry? (path.place disk.current) = none)
    : Replaceable disk path text where
  readable := fun entry stands => by simp [vacant] at stands
  tells := fun old stands => by simp [Disk.content?, vacant] at stands

/-- A text that can be read can be replaced by one of another digest. -/
theorem replaceable_of_text {entry : Entry} {old : Text}
    (stood : disk.entry? (path.place disk.current) = some entry)
    (readable : entry.access.readable = true) (holds : entry.content? = some (.text old))
    (differ : Text.digest old ≠ Text.digest text)
    : Replaceable disk path text where
  readable := fun other stands => by
    obtain rfl := Option.some.inj (stood.symm.trans stands)
    exact readable
  tells := fun other stands same => by
    obtain rfl : old = other := by simpa [Disk.content?, stood, holds] using stands
    exact absurd same differ

/-- What can be replaced can be replaced after a change that only removes. -/
theorem Replaceable.of_removing {territory : Disk.Territory} (replaceable : Replaceable early path text)
    (frame : Disk.Frame territory early late) (removing : territory.OnlyRemoves)
    : Replaceable late path text where
  readable := by
    intro entry stands
    have agree : Disk.Agree (· = path.place late.current) early late :=
      frame.agree_of_left removing fun place same => by
        rw [same, stands]
        exact Option.some_ne_none _
    have inside : path.place early.current = path.place late.current := by rw [frame.current]
    rcases agree.entry?_cases inside with ⟨-, absent⟩ | ⟨other, entry', stood, standing, same⟩
    · rw [inside, stands] at absent
      cases absent
    · rw [inside, stands] at standing
      obtain rfl := Option.some.inj standing
      rw [← Disk.Agree.access_of_shape same]
      exact replaceable.readable other stood
  tells := fun old stands => replaceable.tells old
    (frame.current ▸ frame.content?_stood (removing _).1 stands)

/-- A text that was written where it has changed is read, also if there was a change elsewhere before. -/
theorem read_of_replaceable {writes : Location → Prop} {written : Disk} {changed : Bool}
    (replaceable : Replaceable early path text) (grows : Disk.Grows writes early late)
    (plain : ¬ writes (path.place early.current))
    (ok : late.writeIfChanged path text = (.ok changed, written))
    : written.read path = .ok text := by
  have stood {entry : Entry} (stands : late.entry? (path.place late.current) = some entry)
      (isFile : entry.isDirectory = false)
      : early.entry? (path.place early.current) = some entry :=
    grows.file_stood (grows.current ▸ stands) isFile plain
  rcases Disk.writeIfChanged_eq_ok ok with ⟨-, rfl, old, reads, digests⟩ | ⟨-, wrote⟩
  · obtain ⟨entry, sought, -, kind⟩ := Disk.read_eq_ok reads
    have here := stood (Disk.find_eq_ok sought) (by simp [Entry.isDirectory, kind])
    rw [reads, replaceable.tells old (by simp [Disk.content?, here, Entry.content?, kind]) digests]
  · exact wrote.read fun entry stands => replaceable.readable entry (stood stands (wrote.wasFile _ stands))

/-- Both artifacts are read as they were written, one after the other. -/
theorem reads_of_artifacts {catalogText bindingsText : Text} {catalogWritten bindingsWritten : Bool}
    {first second : Disk}
    (apart : files.catalog.place disk.current ≠ files.bindings.place disk.current)
    (catalog : Replaceable disk files.catalog catalogText)
    (bindings : Replaceable disk files.bindings bindingsText)
    (wrote : disk.writeIfChanged files.catalog catalogText = (.ok catalogWritten, first))
    (bound : first.writeIfChanged files.bindings bindingsText = (.ok bindingsWritten, second))
    : second.read files.catalog = .ok catalogText ∧ second.read files.bindings = .ok bindingsText := by
  have catalogOnly : Disk.Grows (· = files.catalog.place disk.current) disk first :=
    Disk.grows_writeIfChanged rfl wrote
  have bindingsOnly : Disk.Grows (· = files.bindings.place first.current) first second :=
    Disk.grows_writeIfChanged rfl bound
  refine ⟨bindingsOnly.read ?_ (catalogOnly.current ▸ apart),
    read_of_replaceable bindings catalogOnly apart.symm bound⟩
  exact read_of_replaceable catalog (.refl (fun _ => False) disk) id wrote

-----------------------------------------------------------------------------------------
-- Refreshes that read everything
-----------------------------------------------------------------------------------------

/-- All documents are read where this is forced or where no usable record is. -/
theorem pending?_full {force : Bool} {times : ArtifactTimes}
    (listed : sources files before.disk = .ok found)
    (timed : artifactTimes files before.disk = .ok times)
    (full : force = true ∨ before.provenance.loadUsable before.disk = none)
    : pending? files force before = some (.full, found, SortedMap.empty) := by
  unfold pending?
  rw [listed, timed]
  have all : plan force (before.provenance.loadUsable before.disk) found times = .all := by
    unfold plan
    rcases full with rfl | none
    · split <;> simp
    · rw [none]
  simp [all, scopeOf]

/-- A refresh that reads all documents, and can put the artifacts of their groups where others stand. -/
structure ReadsAll (files : StepGroupFiles) (force : Bool) (groups : List StepGroup) (workspace : Workspace)
    : Prop where
  full : force = true ∨ workspace.provenance.loadUsable workspace.disk = none
  declares : ∀ found, sources files workspace.disk = .ok found → declared workspace.disk found = groups
  catalog : Replaceable workspace.disk files.catalog (Document.write (Catalog.ofGroups groups))
  bindings : Replaceable workspace.disk files.bindings (Bindings.file (Catalog.ofGroups groups))

/-- A refresh that reads all documents makes both artifacts of the groups that they declare. -/
theorem ReadsAll.reads_of_run {force : Bool} {outcome : Refresh} {groups : List StepGroup}
    (readsAll : ReadsAll files force groups before) (placed : Placed files before)
    (ran : run files force before = .ok outcome after)
    : outcome.isRegenerated = true
        ∧ after.disk.read files.catalog = .ok (Document.write (Catalog.ofGroups groups))
        ∧ after.disk.read files.bindings = .ok (Bindings.file (Catalog.ofGroups groups)) := by
  obtain ⟨found, times, listed, timed, result⟩ := run_eq_ok ran
  rw [pending?_full listed timed readsAll.full] at result
  obtain ⟨none, -, -⟩ | ⟨scope, documents, start, made, planned, gathered, ok⟩ := result
  · simp at none
  obtain ⟨rfl, rfl, rfl⟩ : Scope.full = scope ∧ found = documents ∧ SortedMap.empty = start := by
    simpa using planned
  obtain rfl : made = Catalog.ofGroups groups := readsAll.declares found listed ▸ gather_eq_ok gathered
  obtain ⟨_, _, first, second, record, wrote, bound, -, saved, rfl, -⟩ := regenerate_eq_ok ok
  obtain ⟨-, late⟩ := grows_artifacts wrote bound
  obtain ⟨catalogReads, bindingsReads⟩ :=
    reads_of_artifacts placed.artifacts readsAll.catalog readsAll.bindings wrote bound
  have last : Disk.Grows (IsRecord before) second after.disk :=
    Store.grows_save (fun path known => ⟨path, known, by rw [late.current]⟩) saved
  have unwritten (place : Location) (artifact : IsArtifact files before.disk.current place)
      : ¬ IsRecord before place :=
    fun isRecord => placed.record place isRecord artifact
  exact ⟨rfl, last.read catalogReads (unwritten _ (Or.inl (by rw [late.current]))),
    last.read bindingsReads (unwritten _ (Or.inr (by rw [late.current])))⟩

/-- A forced refresh reads all documents. -/
theorem pending?_forced {times : ArtifactTimes} (listed : sources files before.disk = .ok found)
    (timed : artifactTimes files before.disk = .ok times)
    : pending? files true before = some (.full, found, SortedMap.empty) :=
  pending?_full listed timed (Or.inl rfl)

/-- The steps of a forced refresh one after the other. -/
theorem run_forced {times : ArtifactTimes} {catalogWritten bindingsWritten : Bool} {first second last : Disk}
    {record : Provenance} {store : Store Provenance} (listed : sources files before.disk = .ok found)
    (timed : artifactTimes files before.disk = .ok times)
    (gathered : gather before.disk found SortedMap.empty = .ok catalog)
    (wrote : before.disk.writeIfChanged files.catalog (Document.write catalog) = (.ok catalogWritten, first))
    (bound : first.writeIfChanged files.bindings (Bindings.file catalog) = (.ok bindingsWritten, second))
    (present : presentRecord files found second = .ok record)
    (saved : before.provenance.save second record = (.ok (), last, store))
    : run files true before
      = .ok (.regenerated .full catalog.size catalogWritten bindingsWritten)
          { before with disk := last, provenance := store } :=
  run_of_steps listed timed (pending?_forced listed timed) gathered wrote bound present saved

/-- A forced refresh that can be carried out: the documents are listed and well-formed, the artifacts can be
replaced, and all writes succeed.
-/
structure CanRebuild (files : StepGroupFiles) (before : Workspace) (found : List Source) : Prop where
  tree : before.disk.IsTree
  direct : before.disk.Direct files.sourceDirectory
  placed : Placed files before
  listed : sources files before.disk = .ok found
  timed : ∃ times, artifactTimes files before.disk = .ok times
  extracts : ∀ source ∈ found, Extracts before.disk source
  catalog : Replaceable before.disk files.catalog
    (Document.write (Catalog.ofGroups (declared before.disk found)))
  bindings : Replaceable before.disk files.bindings
    (Bindings.file (Catalog.ofGroups (declared before.disk found)))
  writes : ∃ catalogWritten bindingsWritten first second,
    before.disk.writeIfChanged files.catalog
        (Document.write (Catalog.ofGroups (declared before.disk found))) = (.ok catalogWritten, first)
      ∧ first.writeIfChanged files.bindings
        (Bindings.file (Catalog.ofGroups (declared before.disk found))) = (.ok bindingsWritten, second)
      ∧ ∀ record, presentRecord files found second = .ok record →
        ∃ last store, before.provenance.save second record = (.ok (), last, store)

/-- What a forced refresh leaves: the same documents, artifacts that have the texts of the catalogue, and a
record that can be saved again.
-/
structure Rebuilt (files : StepGroupFiles) (found : List Source) (catalog : Catalog) (after : Workspace)
    : Prop where
  listed : sources files after.disk = .ok found
  founds : ∀ source ∈ found, ∃ entry, Found files after.disk source entry
  gathered : gather after.disk found SortedMap.empty = .ok catalog
  catalogText : after.disk.read files.catalog = .ok (Document.write catalog)
  bindingsText : after.disk.read files.bindings = .ok (Bindings.file catalog)
  record : ∀ place, IsRecord after place → ¬ IsArtifact files after.disk.current place
  saves : ∀ record, ∃ last store, after.provenance.save after.disk record = (.ok (), last, store)

/-- A forced refresh that can be carried out succeeds. -/
theorem rebuilt_of_canRebuild (can : CanRebuild files before found)
    : ∃ outcome after, run files true before = .ok outcome after
        ∧ Rebuilt files found (Catalog.ofGroups (declared before.disk found)) after := by
  obtain ⟨catalogWritten, bindingsWritten, first, second, wrote, bound, saves⟩ := can.writes
  obtain ⟨times, timed⟩ := can.timed
  have gathered := gather_of_extracts can.extracts SortedMap.empty
  generalize hcatalog : Catalog.ofGroups (declared before.disk found) = catalog at wrote bound ⊢
  have gathered : gather before.disk found SortedMap.empty = .ok catalog := hcatalog ▸ gathered
  have replacesCatalog := hcatalog ▸ can.catalog
  have replacesBindings := hcatalog ▸ can.bindings
  obtain ⟨-, late⟩ := grows_artifacts wrote bound
  obtain ⟨catalogReads, bindingsReads⟩ :=
    reads_of_artifacts can.placed.artifacts replacesCatalog replacesBindings wrote bound
  have foundsSecond : ∀ source ∈ found, ∃ entry, Found files second source entry := by
    intro source member
    obtain ⟨entry, isFound⟩ := found_of_sources can.tree can.listed member
    exact ⟨entry, isFound.later late can.placed.plain⟩
  obtain ⟨catalogEntry, catalogFound, -⟩ := Disk.read_eq_ok catalogReads
  obtain ⟨bindingsEntry, bindingsFound, -⟩ := Disk.read_eq_ok bindingsReads
  obtain ⟨-, record, present⟩ :=
    presentRecord_of_find foundsSecond ⟨_, catalogFound⟩ ⟨_, bindingsFound⟩
  obtain ⟨last, store, saved⟩ := saves record present
  have sameFile : store.file? = before.provenance.file? := by
    have same := before.provenance.file?_save second record
    rwa [saved] at same
  have lastGrows : Disk.Grows (IsRecord before) second last :=
    Store.grows_save (fun path known => ⟨path, known, by rw [late.current]⟩) saved
  have grows : Disk.Grows (Writes files before) before.disk last :=
    (late.mono fun _ => Or.inl).trans (lastGrows.mono fun _ => Or.inr)
  have unwritten : ∀ place, IsArtifact files before.disk.current place → ¬ IsRecord before place :=
    fun place artifact isRecord => can.placed.record place isRecord artifact
  have canOpen := Disk.canOpen_of_recordedTime (artifactTimes_eq_ok_iff.mp timed).1
  have sameReads : ∀ source ∈ found, last.read source.path = before.disk.read source.path := by
    intro source member
    obtain ⟨text, groups, reads, -⟩ := can.extracts source member
    rw [reads, read_of_grows grows can.tree can.listed can.placed.documents member reads]
  have extractsLast : ∀ source ∈ found, Extracts last source := by
    intro source member
    obtain ⟨text, groups, reads, extracted⟩ := can.extracts source member
    exact ⟨text, groups, (sameReads source member).trans reads, extracted⟩
  have sameTexts : texts last found = texts before.disk found :=
    List.map_congr_left fun source member => by rw [sameReads source member]
  refine ⟨_, _, run_forced can.listed timed gathered wrote bound present saved, ?_⟩
  exact {
    listed := sources_of_grows grows can.tree can.direct canOpen can.placed.documents can.listed
    founds := by
      intro source member
      obtain ⟨entry, isFound⟩ := found_of_sources can.tree can.listed member
      exact ⟨entry, isFound.later grows can.placed.documents⟩
    gathered := by
      rw [gather_of_extracts extractsLast, declared_eq_flatMap_texts, sameTexts,
        ← declared_eq_flatMap_texts]
      exact congrArg Except.ok hcatalog
    catalogText := lastGrows.read catalogReads (unwritten _ (Or.inl (by rw [late.current])))
    bindingsText := lastGrows.read bindingsReads (unwritten _ (Or.inr (by rw [late.current])))
    record := by
      rintro place ⟨path, known, rfl⟩ artifact
      rw [sameFile] at known
      dsimp only at artifact
      rw [grows.current] at artifact
      exact can.placed.record _ ⟨path, known, rfl⟩ artifact
    saves := Store.save_of_save saved }

/-- What a forced refresh leaves stays as it is after another one. -/
theorem Rebuilt.again (rebuilt : Rebuilt files found catalog after)
    : ∃ last, run files true after = .ok (.regenerated .full catalog.size false false) last
        ∧ ∀ place, IsArtifact files after.disk.current place →
          last.disk.entry? place = after.disk.entry? place := by
  obtain ⟨catalogEntry, catalogFound, -, catalogKind⟩ := Disk.read_eq_ok rebuilt.catalogText
  obtain ⟨bindingsEntry, bindingsFound, -, bindingsKind⟩ := Disk.read_eq_ok rebuilt.bindingsText
  obtain ⟨⟨times, timed⟩, record, present⟩ :=
    presentRecord_of_find rebuilt.founds ⟨_, catalogFound⟩ ⟨_, bindingsFound⟩
  obtain ⟨last, store, saved⟩ := rebuilt.saves record
  refine ⟨_, run_forced rebuilt.listed timed rebuilt.gathered
    (Disk.writeIfChanged_of_read rebuilt.catalogText) (Disk.writeIfChanged_of_read rebuilt.bindingsText)
    present saved, ?_⟩
  have grows : Disk.Grows (IsRecord after) after.disk last :=
    Store.grows_save (fun path known => ⟨path, known, rfl⟩) saved
  intro place artifact
  have stands : ∃ entry, after.disk.entry? place = some entry ∧ entry.isDirectory = false := by
    rcases artifact with rfl | rfl
    · exact ⟨_, Disk.find_eq_ok catalogFound, by simp [Entry.isDirectory, catalogKind]⟩
    · exact ⟨_, Disk.find_eq_ok bindingsFound, by simp [Entry.isDirectory, bindingsKind]⟩
  obtain ⟨entry, stands, isFile⟩ := stands
  rw [stands]
  exact grows.file_kept stands isFile fun isRecord => rebuilt.record place isRecord artifact

/-- Two projects with the same documents have the same artifacts after a forced refresh, whatever these and
the record were before: they are made of the last definitions of the names that the documents declare. A
second forced refresh writes neither of them.
-/
theorem rebuild_depends_on_documents_only {others : List Source} (canLeft : CanRebuild files left found)
    (canRight : CanRebuild files right others) (same : texts left.disk found = texts right.disk others)
    : ∃ catalog,
        (∀ name, catalog.find? name
          = (StepGroup.last? name (declared left.disk found)).map StepGroup.entry)
        ∧ ∀ before ∈ [left, right], ∃ outcome after, run files true before = .ok outcome after
          ∧ after.disk.read files.catalog = .ok (Document.write catalog)
          ∧ after.disk.read files.bindings = .ok (Bindings.file catalog)
          ∧ ∃ last, run files true after = .ok (.regenerated .full catalog.size false false) last
            ∧ ∀ place, IsArtifact files after.disk.current place →
              last.disk.entry? place = after.disk.entry? place := by
  have sameGroups : declared right.disk others = declared left.disk found := by
    rw [declared_eq_flatMap_texts, declared_eq_flatMap_texts, same]
  refine ⟨Catalog.ofGroups (declared left.disk found), Catalog.find?_ofGroups _, ?_⟩
  intro before member
  have rebuilds : ∃ outcome after, run files true before = .ok outcome after
      ∧ ∃ sources, Rebuilt files sources (Catalog.ofGroups (declared left.disk found)) after := by
    rcases List.mem_pair.mp member with rfl | rfl
    · obtain ⟨outcome, after, ran, rebuilt⟩ := rebuilt_of_canRebuild canLeft
      exact ⟨outcome, after, ran, found, rebuilt⟩
    · obtain ⟨outcome, after, ran, rebuilt⟩ := rebuilt_of_canRebuild canRight
      exact ⟨outcome, after, ran, others, sameGroups ▸ rebuilt⟩
  obtain ⟨outcome, after, ran, _, rebuilt⟩ := rebuilds
  exact ⟨outcome, after, ran, rebuilt.catalogText, rebuilt.bindingsText, rebuilt.again⟩

-----------------------------------------------------------------------------------------
-- Two projects with one document
-----------------------------------------------------------------------------------------

/-- A project whose catalogue and record are unusable. -/
def staleProject : Workspace :=
  { plainProject with
    disk := plainProject.disk.put [['c']] ⟨.file (.text ['?']), 6, ⟨true, true, false⟩⟩
    provenance := .corrupted 0 }

/-- The document of both projects. -/
def plainDocument : Source := ⟨"a.feature".toList, .of "g/a.feature", some 5⟩

/-- The group that the document declares. -/
def plainGroup : StepGroup := ⟨"a.sg".toList, ['x'], []⟩

/-- The unusable catalogue can be replaced, since its digest is another one. -/
theorem replaceable_staleProject
    : Replaceable staleProject.disk plainFiles.catalog (Document.write (Catalog.ofGroups [plainGroup])) := by
  have stood : staleProject.disk.entry? (plainFiles.catalog.place staleProject.disk.current)
      = some ⟨.file (.text ['?']), 6, ⟨true, true, false⟩⟩ := by
    decide +kernel
  exact replaceable_of_text stood rfl rfl (by decide +kernel)

theorem canRebuild_plainFiles (known : before = plainProject ∨ before = staleProject)
    : CanRebuild plainFiles before [plainDocument] := by
  have groups : declared before.disk [plainDocument] = [plainGroup] := by
    rcases known with rfl | rfl <;> decide +kernel
  exact {
    tree := by rcases known with rfl | rfl <;> decide +kernel
    direct := by rcases known with rfl | rfl <;> decide +kernel
    placed := by rcases known with rfl | rfl <;> exact placed_plainFiles rfl rfl
    listed := by rcases known with rfl | rfl <;> decide +kernel
    timed := by
      rcases known with rfl | rfl
      · exact ⟨⟨none, none⟩, by decide +kernel⟩
      · exact ⟨⟨none, some 6⟩, by decide +kernel⟩
    extracts := by
      intro source member
      obtain rfl := List.mem_singleton.mp member
      refine ⟨"@StepGroup:a @StepGroup\nExample:x".toList, [plainGroup], ?_, by decide +kernel⟩
      rcases known with rfl | rfl <;> decide +kernel
    catalog := by
      rw [groups]
      rcases known with rfl | rfl
      · exact replaceable_of_vacant (by decide +kernel)
      · exact replaceable_staleProject
    bindings := by rcases known with rfl | rfl <;> exact replaceable_of_vacant (by decide +kernel)
    writes := by
      rw [groups]
      have wrote : (before.disk.writeIfChanged plainFiles.catalog
          (Document.write (Catalog.ofGroups [plainGroup]))).1 = .ok true := by
        rcases known with rfl | rfl <;> decide +kernel
      have bound : ((before.disk.writeIfChanged plainFiles.catalog
          (Document.write (Catalog.ofGroups [plainGroup]))).2.writeIfChanged plainFiles.bindings
            (Bindings.file (Catalog.ofGroups [plainGroup]))).1 = .ok true := by
        rcases known with rfl | rfl <;> decide +kernel
      refine ⟨true, true, _, _, Prod.ext wrote rfl, Prod.ext bound rfl, fun record _ => ?_⟩
      rcases known with rfl | rfl <;> exact ⟨_, _, rfl⟩ }

/-- Witness: a project without artifacts, and one with unusable ones. -/
theorem rebuild_depends_on_documents_only_stale_project
    : ∃ catalog,
        (∀ name, catalog.find? name
          = (StepGroup.last? name (declared plainProject.disk [plainDocument])).map StepGroup.entry)
        ∧ ∀ before ∈ [plainProject, staleProject], ∃ outcome after,
          run plainFiles true before = .ok outcome after
          ∧ after.disk.read plainFiles.catalog = .ok (Document.write catalog)
          ∧ after.disk.read plainFiles.bindings = .ok (Bindings.file catalog)
          ∧ ∃ last, run plainFiles true after = .ok (.regenerated .full catalog.size false false) last
            ∧ ∀ place, IsArtifact plainFiles after.disk.current place →
              last.disk.entry? place = after.disk.entry? place :=
  rebuild_depends_on_documents_only (canRebuild_plainFiles (Or.inl rfl))
    (canRebuild_plainFiles (Or.inr rfl)) (by decide +kernel)

set_option maxRecDepth 100000 in
/-- Counterexample: the directory that the document is reached through is missing at first, so a forced
refresh reads no document. It writes the catalogue and so makes that directory, and a second one reads the
document and writes both artifacts again.
-/
theorem rebuild_twice_detour
    : Command.value? (run detourFiles true plainProject) = some (.regenerated .full 0 true true)
      ∧ Command.value? (run detourFiles true (Command.left (run detourFiles true plainProject)))
        = some (.regenerated .full 1 true true) := by
  decide +kernel

end Refresh

end FeaturePress
