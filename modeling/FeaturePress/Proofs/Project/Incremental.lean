import FeaturePress.Proofs.Disk.Rewording
import FeaturePress.Proofs.Project.CatalogHistory
import FeaturePress.Proofs.Project.Documents

/-! Refreshing after some documents have changed. What is pending are the documents whose time is not on
record, and their groups are put over the catalogue that is stored. The contents of all other documents
are not read, so that whatever they are the refresh goes on alike.
-/

namespace FeaturePress

/-- A workspace with the contents of files on its disk changed. -/
def Workspace.reworded (change : Location → Content → Content) (workspace : Workspace) : Workspace :=
  { workspace with disk := workspace.disk.reworded change }

namespace Store

variable {α : Type} [Storable α] {change : Location → Content → Content} {disk : Disk} {store : Store α}

theorem loadUsable_reworded
    (kept : ∀ path, store.file? = some path → change (path.place disk.current) = id)
    : store.loadUsable (disk.reworded change) = store.loadUsable disk :=
  loadUsable_congr fun path isFile text => by rw [disk.read_reworded (kept path isFile)]

theorem save_reworded (kept : ∀ path, store.file? = some path → change (path.place disk.current) = id)
    (value : α)
    : store.save (disk.reworded change) value
      = ((store.save disk value).1, (store.save disk value).2.1.reworded change,
        (store.save disk value).2.2) := by
  cases store with
  | memory known saves => rfl
  | corrupted saves => rfl
  | file path =>
      unfold save Document.save
      dsimp only
      rw [Disk.write_reworded (kept path rfl)]
      obtain ⟨outcome, written⟩ := disk.write path (.text (Document.write value))
      cases outcome <;> rfl

end Store

namespace Refresh

variable {files : StepGroupFiles} {force : Bool} {before after : Workspace} {outcome : Refresh}
  {change : Location → Content → Content} {disk : Disk} {found documents : List Source} {source : Source}
  {record : Provenance} {keys : List Text} {name : Text}

-----------------------------------------------------------------------------------------
-- Refreshing with other contents
-----------------------------------------------------------------------------------------

@[simp]
theorem sources_reworded : sources files (disk.reworded change) = sources files disk := by
  have same : sourceAt (disk.reworded change) files.sourceDirectory
      = sourceAt disk files.sourceDirectory := by
    funext path
    unfold sourceAt
    rw [Disk.recordedTime_reworded]
  unfold sources
  rw [Disk.featureFiles_reworded, same]

@[simp]
theorem artifactTimes_reworded : artifactTimes files (disk.reworded change) = artifactTimes files disk := by
  unfold artifactTimes
  simp

theorem timesOf_reworded (start : Provenance)
    : timesOf (disk.reworded change) found start = timesOf disk found start := by
  induction found generalizing start with
  | nil => rfl
  | cons source rest ih =>
      unfold timesOf
      simp only [Disk.recordedTime_reworded, ih]

@[simp]
theorem presentRecord_reworded
    : presentRecord files found (disk.reworded change) = presentRecord files found disk := by
  unfold presentRecord
  rw [timesOf_reworded, artifactTimes_reworded]

theorem existingCatalog?_reworded (kept : change (files.catalog.place disk.current) = id)
    : existingCatalog? files (disk.reworded change) = existingCatalog? files disk := by
  unfold existingCatalog? Document.load
  rw [disk.readOptional_reworded kept]

/-- Gathering reads none but its documents, by induction on these. -/
theorem gather_reworded
    (kept : ∀ source ∈ documents, change (source.path.place disk.current) = id) (start : Catalog)
    : gather (disk.reworded change) documents start = gather disk documents start := by
  induction documents generalizing start with
  | nil => rfl
  | cons source rest ih =>
      unfold gather
      rw [disk.read_reworded (kept source (List.mem_cons_self ..))]
      simp only [ih fun other member => kept other (List.mem_cons_of_mem _ member)]

theorem pending?_reworded (kept : ∀ place, Writes files before place → change place = id)
    : pending? files force (before.reworded change) = pending? files force before := by
  unfold pending? Workspace.reworded
  rw [sources_reworded, artifactTimes_reworded,
    existingCatalog?_reworded (kept _ (Or.inl (Or.inl rfl))),
    Store.loadUsable_reworded fun path isFile => kept _ (Or.inr ⟨path, isFile, rfl⟩)]

/-- A refresh that reads what is pending goes on alike when the contents of other files are changed. -/
theorem run_reworded {scope : Scope} {start : Catalog}
    (kept : ∀ place, Writes files before place → change place = id)
    (planned : pending? files force before = some (scope, documents, start))
    (unread : ∀ source ∈ documents, change (source.path.place before.disk.current) = id)
    (ran : run files force before = .ok outcome after)
    : run files force (before.reworded change) = .ok outcome (after.reworded change) := by
  obtain ⟨found, times, listed, timed, ⟨nothing, -⟩ | ⟨_, _, _, catalog, other, gathered, made⟩⟩ :=
    run_eq_ok ran
  · simp [planned] at nothing
  rw [planned, Option.some.injEq, Prod.mk.injEq, Prod.mk.injEq] at other
  obtain ⟨rfl, rfl, rfl⟩ := other
  obtain ⟨catalogWritten, bindingsWritten, first, second, record, wrote, bound, present, saved, rfl, metadata⟩ :=
    regenerate_eq_ok made
  obtain ⟨early, late⟩ := grows_artifacts wrote bound
  have wroteAlike := Disk.writeIfChanged_reworded (kept _ (Or.inl (Or.inl rfl)))
    (Document.write catalog)
  have boundAlike : (first.reworded change).writeIfChanged files.bindings (Bindings.file catalog) = _ :=
    Disk.writeIfChanged_reworded (by
      rw [early.current]
      exact kept _ (Or.inl (Or.inr rfl))) _
  have savedAlike : before.provenance.save (second.reworded change) record = _ :=
    Store.save_reworded (fun path isFile => by
      rw [late.current]
      exact kept _ (Or.inr ⟨path, isFile, rfl⟩)) record
  rw [wrote] at wroteAlike
  rw [bound] at boundAlike
  rw [saved] at savedAlike
  have plannedAlike : pending? files force (before.reworded change) = some (scope, documents, start) :=
    (pending?_reworded kept).trans planned
  have again : run files force (before.reworded change) = _ :=
    run_of_steps (sources_reworded.trans listed) (artifactTimes_reworded.trans timed) plannedAlike
      ((gather_reworded unread start).trans gathered) wroteAlike boundAlike
      (presentRecord_reworded.trans present) savedAlike
  rw [again]
  congr 1
  unfold Workspace.reworded
  rw [metadata]

-----------------------------------------------------------------------------------------
-- What is made of the changed documents
-----------------------------------------------------------------------------------------

/-- The digest tells the text that is to stand at a path from the one that stands there. -/
def Recognized (disk : Disk) (path : Path) (text : Text) : Prop :=
  ∀ old, disk.content? (path.place disk.current) = some (.text old) →
    Text.digest old = Text.digest text → old = text

/-- The catalogue that exists was read. -/
theorem read_of_existingCatalog? {catalog : Catalog} (existing : existingCatalog? files disk = some catalog)
    : ∃ text, disk.read files.catalog = .ok text := by
  unfold existingCatalog? at existing
  split at existing
  · next value loads =>
      obtain ⟨text, reads, -⟩ := Document.load_eq_some_iff.mp (existing ▸ loads)
      exact ⟨text, reads⟩
  · simp at existing

/-- Writing a text where it has changed leaves it there. -/
theorem content?_of_writeIfChanged {written : Disk} {path : Path} {text : Text} {changed : Bool}
    (recognized : Recognized disk path text)
    (ok : disk.writeIfChanged path text = (.ok changed, written))
    : written.content? (path.place written.current) = some (.text text) := by
  rcases Disk.writeIfChanged_eq_ok ok with ⟨-, rfl, old, reads, digests⟩ | ⟨-, wrote⟩
  · have stands := Disk.content?_of_read reads
    rw [stands, recognized old stands digests]
  · simp [Disk.content?, Disk.find_eq_ok wrote.found, Entry.content?]

/-- After making the artifacts again the bindings are those of the catalogue that was made. -/
theorem content?_of_regenerate {scope : Scope} {catalog : Catalog} (placed : Placed files before)
    (recognized : Recognized before.disk files.bindings (Bindings.file catalog))
    (ok : regenerate files found scope catalog before = .ok outcome after)
    : after.disk.content? (files.bindings.place after.disk.current)
        = some (.text (Bindings.file catalog)) := by
  obtain ⟨_, _, first, second, record, wrote, bound, -, saved, -, -⟩ := regenerate_eq_ok ok
  have catalogFrame := Disk.frame_writeIfChanged before.disk files.catalog (Document.write catalog)
  have bindingsFrame := Disk.frame_writeIfChanged first files.bindings (Bindings.file catalog)
  have recordFrame := before.provenance.frame_save second record
  rw [wrote] at catalogFrame
  rw [bound] at bindingsFrame
  rw [saved] at recordFrame
  -- the catalogue before and the record after are written at other places
  have stood : first.content? (files.bindings.place first.current)
      = before.disk.content? (files.bindings.place before.disk.current) := by
    rw [catalogFrame.current]
    refine catalogFrame.content?_kept fun changes => ?_
    exact placed.artifacts (Disk.Territory.changes_written_iff.mp changes).symm
  have written := content?_of_writeIfChanged (fun old stands => recognized old (stood ▸ stands)) bound
  rw [recordFrame.current, recordFrame.content?_kept, written]
  intro changes
  obtain ⟨path, isFile, same⟩ := Store.changes_territory_iff.mp changes
  rw [bindingsFrame.current, catalogFrame.current] at same
  exact placed.record _ ⟨path, isFile, rfl⟩ (Or.inr same.symm)

/-- The catalogue that a run makes of what is pending. -/
def remade (files : StepGroupFiles) (force : Bool) (workspace : Workspace) : Catalog :=
  match pending? files force workspace with
  | none => SortedMap.empty
  | some (_, documents, start) => (declared workspace.disk documents).foldl Catalog.put start

/-- Documents of one place are the same. -/
theorem eq_of_place_eq {other : Source} (tree : disk.IsTree) (listed : sources files disk = .ok found)
    (member : source ∈ found) (memberOther : other ∈ found)
    (same : source.path.place disk.current = other.path.place disk.current)
    : source = other := by
  obtain ⟨entry, isFound⟩ := found_of_sources tree listed member
  obtain ⟨entryOther, isFoundOther⟩ := found_of_sources tree listed memberOther
  obtain ⟨names, isDocument⟩ := isFound.isDocument
  obtain ⟨others, isDocumentOther⟩ := isFoundOther.isDocument
  rw [isDocument.path, isDocumentOther.path, Path.place_along _ isDocument.proper,
    Path.place_along _ isDocumentOther.proper] at same
  obtain rfl := List.append_cancel_left same
  have path : source.path = other.path := isDocument.path.trans isDocumentOther.path.symm
  have key : source.key = other.key := isDocument.key.trans isDocumentOther.key.symm
  have modified : source.modified = other.modified := by
    have timed := isFound.recordedTime
    rw [path, isFoundOther.recordedTime] at timed
    exact (Except.ok.inj timed).symm
  cases source
  cases other
  simp_all

/-- The documents are found in the order of the names that lead to them. -/
theorem sorted_sources (listed : sources files disk = .ok found)
    : ∃ ways : List (List Text), found.map Source.path = ways.map files.sourceDirectory.along
        ∧ ways.Pairwise (compare · · = .lt) := by
  obtain ⟨ways, isWays, sorted⟩ := Disk.sorted_featureFiles (featureFiles_of_sources listed)
  exact ⟨ways, isWays, sorted⟩

/-- A refresh of changed documents only reads those whose time is not on record, in the order of their
paths. It puts their groups over the stored catalogue, and the bindings are those of the catalogue that is
made. It goes on alike whatever the contents of all other documents are.
-/
theorem incremental_overlays_changed {size : Nat} {catalogWritten bindingsWritten : Bool}
    (tree : before.disk.IsTree) (placed : Placed files before)
    (catalogRecognized : Recognized before.disk files.catalog (Document.write (remade files false before)))
    (bindingsRecognized : Recognized before.disk files.bindings (Bindings.file (remade files false before)))
    (ran : run files false before
      = .ok (.regenerated (.incremental keys) size catalogWritten bindingsWritten) after)
    : ∃ found record stored made,
        sources files before.disk = .ok found
        ∧ before.provenance.loadUsable before.disk = some record
        ∧ existingCatalog? files before.disk = some stored
        ∧ (∃ ways : List (List Text), found.map Source.path = ways.map files.sourceDirectory.along
          ∧ ways.Pairwise (compare · · = .lt))
        ∧ keys = (changed record found).map Source.key
        ∧ (∀ source ∈ changed record found, Extracts before.disk source)
        ∧ existingCatalog? files after.disk = some made ∧ size = made.size
        ∧ (∀ name, made.find? name
          = ((StepGroup.last? name (declared before.disk (changed record found))).map StepGroup.entry).or
              (stored.find? name))
        ∧ after.disk.content? (files.bindings.place after.disk.current) = some (.text (Bindings.file made))
        ∧ ∀ change : Location → Content → Content,
          (∀ place, change place ≠ id → ∃ source ∈ found, record.find? source.key = source.modified
            ∧ place = source.path.place before.disk.current) →
          run files false (before.reworded change)
            = .ok (.regenerated (.incremental keys) size catalogWritten bindingsWritten)
                (after.reworded change) := by
  obtain ⟨found, times, listed, timed, ⟨-, fresh, -⟩ | ⟨scope, documents, stored, made, planned, gathered, ok⟩⟩ :=
    run_eq_ok ran
  · simp at fresh
  obtain ⟨_, _, first, second, _, wrote, bound, -, saved, regenerated, -⟩ := regenerate_eq_ok ok
  obtain ⟨rfl, rfl, rfl, rfl⟩ := Refresh.regenerated.inj regenerated
  have partly := planned
  unfold pending? at partly
  rw [listed, timed] at partly
  obtain ⟨full, -⟩ | ⟨isIncremental, partly, existing⟩ := scopeOf_eq_some partly
  · simp at full
  obtain ⟨record, recorded, rfl⟩ := plan_eq_only partly
  obtain rfl := gather_eq_ok gathered
  have isRemade : remade files false before
      = (declared before.disk (changed record found)).foldl Catalog.put stored := by
    unfold remade
    rw [planned]
  rw [isRemade] at catalogRecognized bindingsRecognized
  have ready : Ready files before := by
    refine ⟨placed.artifacts, fun path isFile same => ?_, fun entry stands => ?_⟩
    · exact placed.record _ ⟨path, isFile, rfl⟩ (Or.inl same.symm)
    · obtain ⟨text, reads⟩ := read_of_existingCatalog? existing
      obtain ⟨other, found, readable, -⟩ := Disk.read_eq_ok reads
      rwa [Option.some.inj (stands.symm.trans (Disk.find_eq_ok found))]
  have tells : Tells files before.disk _ := fun old reads =>
    catalogRecognized old (Disk.content?_of_read reads)
  refine ⟨found, record, stored, _, listed, recorded, existing, sorted_sources listed,
    Scope.incremental.inj isIncremental,
    fun source member => extracts_of_gather gathered member,
    (existingCatalog?_of_regenerate ready tells ok).1, rfl,
    fun name => Catalog.find?_foldl_put _ stored name,
    content?_of_regenerate placed bindingsRecognized ok, fun change edits => ?_⟩
  have kept : ∀ place, Writes files before place → change place = id := by
    intro place written
    by_contra differs
    obtain ⟨source, member, -, rfl⟩ := edits place differs
    obtain ⟨entry, isFound⟩ := found_of_sources tree listed member
    obtain ⟨names, isDocument⟩ := isFound.isDocument
    exact isDocument.plain placed.documents written
  refine run_reworded kept planned (fun source member => ?_) ran
  by_contra differs
  obtain ⟨other, memberOther, same, place⟩ := edits _ differs
  obtain ⟨member, unlike⟩ := List.mem_filter.mp member
  obtain rfl := eq_of_place_eq tree listed member memberOther place
  exact absurd same (by simpa using unlike)

-----------------------------------------------------------------------------------------
-- Two documents of which one has changed
-----------------------------------------------------------------------------------------

theorem placed_firstTouched : Placed exampleFiles firstTouched := by
  have start : firstTouched.disk.current = [] := by decide +kernel
  have isRecord {place : Location} : IsRecord firstTouched place ↔ place = [['p']] := by
    have isFile : firstTouched.provenance.file? = some (.of "p") := by decide +kernel
    unfold IsRecord
    simp only [isFile, Option.some.injEq, start]
    constructor
    · rintro ⟨_, rfl, rfl⟩
      decide
    · exact fun same => ⟨_, rfl, same.trans (by decide)⟩
  refine ⟨by rw [start]; decide, fun place record => ?_, fun names written => ?_⟩
  · rw [isRecord.mp record, start]
    unfold IsArtifact
    decide
  · exfalso
    unfold Writes IsArtifact at written
    rw [start, isRecord] at written
    have places : Path.place [] exampleFiles.sourceDirectory = [['g']]
        ∧ Path.place [] exampleFiles.catalog = [['c']]
        ∧ Path.place [] exampleFiles.bindings = [['b']] := by decide
    simp [places] at written

/-- What stands at a path has another digest than the text that is to stand there. -/
theorem recognized_of_digests {path : Path} {text : Text}
    (differ : (disk.content? (path.place disk.current)).all (fun content => match content with
      | .text old => Text.digest old ≠ Text.digest text
      | .raw _ => true) = true)
    : Recognized disk path text := by
  intro old stands same
  simp [stands, same] at differ

set_option maxRecDepth 100000 in
/-- Witness: after an edit of the first document its group is put over the stored catalogue, whatever the
second document has become.
-/
theorem incremental_overlays_changed_first_touched
    : ∃ after made, run exampleFiles false firstTouched
          = .ok (.regenerated (.incremental ["a.feature".toList]) 1 true true) after
        ∧ existingCatalog? exampleFiles after.disk = some made ∧ 1 = made.size
        ∧ ∀ content, run exampleFiles false (firstTouched.reworded fun place =>
              if place = [['g'], "b.feature".toList] then fun _ => content else id)
            = .ok (.regenerated (.incremental ["a.feature".toList]) 1 true true)
              (after.reworded fun place =>
                if place = [['g'], "b.feature".toList] then fun _ => content else id) := by
  have found : Command.value? (run exampleFiles false firstTouched)
      = some (.regenerated (.incremental ["a.feature".toList]) 1 true true) := by decide +kernel
  have unchanged : ((sources exampleFiles firstTouched.disk).toOption.bind fun found =>
      (firstTouched.provenance.loadUsable firstTouched.disk).map fun record =>
        found.any fun source => record.find? source.key = source.modified
          ∧ [['g'], "b.feature".toList] = source.path.place firstTouched.disk.current) = some true := by
    decide +kernel
  have tree : firstTouched.disk.IsTree := by decide +kernel
  have catalog : Recognized firstTouched.disk exampleFiles.catalog
      (Document.write (remade exampleFiles false firstTouched)) := recognized_of_digests (by decide +kernel)
  have bindings : Recognized firstTouched.disk exampleFiles.bindings
      (Bindings.file (remade exampleFiles false firstTouched)) := recognized_of_digests (by decide +kernel)
  have ran := Command.eq_ok_of_value? found
  generalize Command.left (run exampleFiles false firstTouched) = after at ran
  obtain ⟨found, record, _, made, listed, recorded, -, -, -, -, stored, size, -, -, alike⟩ :=
    incremental_overlays_changed tree placed_firstTouched catalog bindings ran
  refine ⟨after, made, ran, stored, size, fun content => alike _ fun place differs => ?_⟩
  have here : place = [['g'], "b.feature".toList] := by
    by_contra elsewhere
    exact differs (if_neg elsewhere)
  rw [listed, recorded] at unchanged
  obtain ⟨source, member, same⟩ := List.any_eq_true.mp (Option.some.inj unchanged)
  obtain ⟨same, stands⟩ := of_decide_eq_true same
  exact ⟨source, member, same, here.trans stands⟩

end Refresh

end FeaturePress
