import FeaturePress.Proofs.Disk.Relisting
import FeaturePress.Proofs.Project.Refresh

/-! The step-group documents that a refresh finds, and what it leaves of a disk: it only adds, so that the
documents that it has found are found again with their times. A refresh that fails writes the artifacts
at most, and its record stays.
-/

namespace FeaturePress

namespace Store

variable {α : Type} [Storable α] {writes : Location → Prop} {disk written : Disk} {store last : Store α}
  {value : α}

theorem grows_document {path : Path} (inside : writes (path.place disk.current)) (value : α)
    : Disk.Grows writes disk (Document.save disk path value).2 := by
  have grows := Disk.grows_write inside (.text (Document.write value))
  unfold Document.save
  split <;> simp_all

/-- Saving only adds, where a file may be written at the place of the store's document. -/
theorem grows_save (inside : ∀ path, store.file? = some path → writes (path.place disk.current))
    (saved : store.save disk value = (.ok (), written, last))
    : Disk.Grows writes disk written := by
  cases store with
  | file path =>
      have grows := grows_document (inside path rfl) value
      have same : (Document.save disk path value).2 = written := congrArg (·.2.1) saved
      exact same ▸ grows
  | memory known saves =>
      obtain rfl : disk = written := congrArg (·.2.1) saved
      exact .refl _ disk
  | corrupted saves =>
      obtain rfl : disk = written := congrArg (·.2.1) saved
      exact .refl _ disk

/-- Saving that fails keeps the store, and leaves new directories at most. -/
theorem grows_save_of_error {cause : DocumentError}
    (failed : store.save disk value = (.error cause, written, last))
    : last = store ∧ Disk.Grows writes disk written := by
  cases store with
  | file path =>
      have sameStore : .file path = last := congrArg (·.2.2) failed
      have outcome : (Document.save disk path value).1 = .error cause := congrArg (·.1) failed
      have left : (Document.save disk path value).2 = written := congrArg (·.2.1) failed
      refine ⟨sameStore.symm, ?_⟩
      unfold Document.save at outcome left
      split at outcome
      · simp at outcome
      · next wrote =>
          rw [wrote] at left
          exact left ▸ Disk.grows_write_of_error wrote
  | memory known saves => simp [save] at failed
  | corrupted saves => simp [save] at failed

/-- What is loaded from a direct document that is not written is loaded before and after. -/
theorem loadUsable_of_grows {early late : Disk} (grows : Disk.Grows writes early late)
    (plain : ∀ path, store.file? = some path → ¬ writes (path.place early.current))
    (direct : ∀ path, store.file? = some path → early.Direct path)
    : store.loadUsable late = store.loadUsable early :=
  loadUsable_congr fun path isFile _ => grows.read_eq_ok_iff (plain path isFile) (direct path isFile)

end Store

namespace Refresh

variable {files : StepGroupFiles} {force : Bool} {before after workspace : Workspace} {outcome : Refresh}
  {error : CommandError} {found : List Source} {source : Source} {names : List Text}

-----------------------------------------------------------------------------------------
-- What a refresh writes
-----------------------------------------------------------------------------------------

/-- The places of the catalogue and of the bindings. -/
def IsArtifact (files : StepGroupFiles) (start place : Location) : Prop :=
  place = files.catalog.place start ∨ place = files.bindings.place start

/-- The place of the record, if it is a document on the disk. -/
def IsRecord (workspace : Workspace) (place : Location) : Prop :=
  ∃ path, workspace.provenance.file? = some path ∧ place = path.place workspace.disk.current

/-- The places where a refresh writes. -/
def Writes (files : StepGroupFiles) (workspace : Workspace) (place : Location) : Prop :=
  IsArtifact files workspace.disk.current place ∨ IsRecord workspace place

/-- The catalogue, the bindings and the record have places of their own, and none of them is a document
of step groups.
-/
structure Placed (files : StepGroupFiles) (workspace : Workspace) : Prop where
  artifacts : files.catalog.place workspace.disk.current ≠ files.bindings.place workspace.disk.current
  record : ∀ place, IsRecord workspace place → ¬ IsArtifact files workspace.disk.current place
  documents : ∀ names,
    Writes files workspace (files.sourceDirectory.place workspace.disk.current ++ names) →
      (files.sourceDirectory.along names).extension? ≠ some Disk.featureExtension

/-- Both artifacts are written one after the other. -/
theorem grows_artifacts {start : Disk} {catalog bindings : Text} {first second : Except FileError Bool}
    {between last : Disk} (wrote : start.writeIfChanged files.catalog catalog = (first, between))
    (bound : between.writeIfChanged files.bindings bindings = (second, last))
    : Disk.Grows (IsArtifact files start.current) start between
      ∧ Disk.Grows (IsArtifact files start.current) start last := by
  have early : Disk.Grows (IsArtifact files start.current) start between :=
    Disk.grows_writeIfChanged (Or.inl rfl) wrote
  have late : Disk.Grows (IsArtifact files start.current) between last :=
    Disk.grows_writeIfChanged (Or.inr (by rw [early.current])) bound
  exact ⟨early, early.trans late⟩

/-- A refresh that fails writes the artifacts at most, and keeps its store. -/
theorem grows_run_of_error (failed : run files force before = .error error after)
    : Disk.Grows (IsArtifact files before.disk.current) before.disk after.disk
      ∧ after.provenance = before.provenance := by
  rcases run_eq_error failed with ⟨rfl, -⟩ | ⟨found, times, scope, documents, start, -, -, -, failed⟩
  · exact ⟨.refl _ _, rfl⟩
  rcases failed with ⟨rfl, -⟩ | ⟨catalog, -, failed⟩
  · exact ⟨.refl _ _, rfl⟩
  rcases regenerate_eq_error failed with ⟨cause, first, wrote, -, rfl⟩ | ⟨_, first, wrote, failed⟩
  · exact ⟨Disk.grows_writeIfChanged (Or.inl rfl) wrote, rfl⟩
  rcases failed with ⟨cause, second, bound, -, rfl⟩ | ⟨_, second, bound, failed⟩
  · exact ⟨(grows_artifacts wrote bound).2, rfl⟩
  rcases failed with ⟨cause, -, -, rfl⟩ | ⟨record, cause, disk, provenance, -, saved, -, rfl⟩
  · exact ⟨(grows_artifacts wrote bound).2, rfl⟩
  · obtain ⟨rfl, grows⟩ := Store.grows_save_of_error saved
    exact ⟨(grows_artifacts wrote bound).2.trans grows, rfl⟩

/-- Making the artifacts again only adds. -/
theorem grows_regenerate {scope : Scope} {catalog : Catalog}
    (ok : regenerate files found scope catalog before = .ok outcome after)
    : Disk.Grows (Writes files before) before.disk after.disk := by
  obtain ⟨_, _, first, second, _, wrote, bound, _, saved, -, -⟩ := regenerate_eq_ok ok
  obtain ⟨-, late⟩ := grows_artifacts wrote bound
  have sameStart : second.current = before.disk.current := late.current
  have last : Disk.Grows (IsRecord before) second after.disk :=
    Store.grows_save (fun path known => ⟨path, known, by rw [sameStart]⟩) saved
  exact (late.mono fun _ => Or.inl).trans (last.mono fun _ => Or.inr)

/-- A refresh that succeeds only adds. -/
theorem grows_run (ran : run files force before = .ok outcome after)
    : Disk.Grows (Writes files before) before.disk after.disk := by
  obtain ⟨_, _, -, -, ⟨-, -, rfl⟩ | ⟨_, _, _, _, -, -, ok⟩⟩ := run_eq_ok ran
  · exact .refl _ _
  · exact grows_regenerate ok

-----------------------------------------------------------------------------------------
-- Documents
-----------------------------------------------------------------------------------------

theorem mapM_eq_ok_iff {α β ε : Type} {f : α → Except ε β} {list : List α} {results : List β}
    : list.mapM f = .ok results ↔ List.Forall₂ (fun a b => f a = .ok b) list results := by
  induction list generalizing results with
  | nil => cases results <;> simp [pure, Except.pure]
  | cons a list ih =>
      rw [List.mapM_cons]
      cases first : f a with
      | error error => cases results <;> simp [first, bind, Except.bind]
      | ok b =>
          cases rest : list.mapM f with
          | error error => cases results <;> simp [first, rest, ← ih, bind, Except.bind]
          | ok others => cases results <;> simp [first, rest, ← ih, bind, Except.bind, pure, Except.pure]

/-- A document of step groups: its path is that of some names below the directory of documents, and its
key is made of these names.
-/
structure IsDocument (files : StepGroupFiles) (source : Source) (names : List Text) : Prop where
  path : source.path = files.sourceDirectory.along names
  proper : ∀ name ∈ names, IsName name
  key : source.key = List.intercalate ['/'] names
  extension : source.path.extension? = some Disk.featureExtension

/-- A document that is found as a file of its time. -/
structure Found (files : StepGroupFiles) (disk : Disk) (source : Source) (entry : Entry) : Prop where
  isDocument : ∃ names, IsDocument files source names
  found : disk.find source.path = .ok entry
  isFile : entry.isDirectory = false
  modified : source.modified = some (Disk.recorded entry.modified)

theorem Found.recordedTime {disk : Disk} {entry : Entry} (isFound : Found files disk source entry)
    : disk.recordedTime source.path = .ok source.modified := by
  rw [isFound.modified]
  exact Disk.recordedTime_eq_some_iff.mpr ⟨entry, isFound.found, rfl⟩

/-- The documents that are listed are those of the feature files below the directory of documents, in
their order.
-/
theorem sources_eq_ok_iff {disk : Disk}
    : sources files disk = .ok found
      ↔ ∃ paths, disk.featureFiles files.sourceDirectory [] = .ok paths
          ∧ List.Forall₂ (fun path source => sourceAt disk files.sourceDirectory path = .ok source)
            paths found := by
  unfold sources
  constructor
  · intro listed
    split at listed
    · simp at listed
    · next paths met => exact ⟨paths, met, mapM_eq_ok_iff.mp listed⟩
  · intro ⟨paths, met, each⟩
    rw [met]
    exact mapM_eq_ok_iff.mpr each

theorem sourceAt_eq_ok {disk : Disk} {root path : Path} (made : sourceAt disk root path = .ok source)
    : source.path = path := by
  unfold sourceAt at made
  cases timed : disk.recordedTime path with
  | error error => simp [timed, Except.map] at made
  | ok time =>
      rw [timed] at made
      rw [← Except.ok.inj made]

/-- Documents are at the paths of the feature files that are listed. -/
theorem featureFiles_of_sources {disk : Disk} (listed : sources files disk = .ok found)
    : disk.featureFiles files.sourceDirectory [] = .ok (found.map Source.path) := by
  obtain ⟨paths, met, each⟩ := sources_eq_ok_iff.mp listed
  rw [met]
  refine congrArg Except.ok ?_
  clear met listed
  induction each with
  | nil => rfl
  | cons made _ ih =>
      rw [List.map_cons, sourceAt_eq_ok made, ← ih]

theorem found_of_sourceAt {disk : Disk} (tree : disk.IsTree) {paths : List Path} {path : Path}
    (met : disk.featureFiles files.sourceDirectory [] = .ok paths) (member : path ∈ paths)
    (made : sourceAt disk files.sourceDirectory path = .ok source)
    : source.path = path ∧ ∃ entry, Found files disk source entry := by
  unfold sourceAt at made
  cases timed : disk.recordedTime path with
  | error error => simp [timed, Except.map] at made
  | ok time =>
      obtain rfl : _ = source := by simpa [timed, Except.map] using made
      obtain ⟨names, entry, rfl, proper, extension, found, isFile, same⟩ :=
        tree.find_of_listed met member timed
      refine ⟨rfl, entry, ⟨names, rfl, proper, ?_, extension⟩, found, isFile, same⟩
      rw [Path.relativeTo?_along _ proper]
      rfl

theorem found_of_sources {disk : Disk} (tree : disk.IsTree) (listed : sources files disk = .ok found)
    (member : source ∈ found)
    : ∃ entry, Found files disk source entry := by
  obtain ⟨paths, met, each⟩ := sources_eq_ok_iff.mp listed
  obtain ⟨index, bound, rfl⟩ := List.mem_iff_getElem.mp member
  have same := each.length_eq
  have made := (List.forall₂_iff_get.mp each).2 index (same ▸ bound) bound
  exact (found_of_sourceAt tree met (List.getElem_mem _) made).2

/-- Documents of one key are at one path. -/
theorem IsDocument.path_eq {other : Source} {others : List Text}
    (first : IsDocument files source names) (second : IsDocument files other others)
    (same : source.key = other.key)
    : source.path = other.path := by
  rw [first.key, second.key] at same
  have sameNames : names = others := by
    cases names with
    | nil =>
        cases others with
        | nil => rfl
        | cons name others =>
            have parts := Path.pieces_intercalate (List.cons_ne_nil name others)
              fun other member => (second.proper other member).plain
            rw [← same] at parts
            have empty : [] = name := by simpa [Path.pieces] using (List.cons.inj parts).1
            exact absurd empty.symm (second.proper name (List.mem_cons_self ..)).nonempty
    | cons name names =>
        have parts := Path.pieces_intercalate (List.cons_ne_nil name names)
          fun other member => (first.proper other member).plain
        cases others with
        | nil =>
            rw [same] at parts
            have empty : [] = name := by simpa [Path.pieces] using (List.cons.inj parts).1
            exact absurd empty.symm (first.proper name (List.mem_cons_self ..)).nonempty
        | cons other others =>
            have parts' := Path.pieces_intercalate (List.cons_ne_nil other others)
              fun other member => (second.proper other member).plain
            rw [same, parts'] at parts
            exact parts.symm
  rw [first.path, second.path, sameNames]

/-- No document has a reserved key: a key is empty, or it has the dot of its extension. -/
theorem IsDocument.key_ne_reserved (isDocument : IsDocument files source names)
    : source.key ≠ Provenance.bindingsKey ∧ source.key ≠ Provenance.catalogKey := by
  have dotted : source.key = [] ∨ '.' ∈ source.key := by
    rw [isDocument.key]
    cases List.eq_nil_or_concat names with
    | inl empty =>
        rw [empty]
        exact Or.inl rfl
    | inr ends =>
        obtain ⟨earlier, last, rfl⟩ := ends
        right
        have named : source.path.fileName? = some last := by
          unfold Path.fileName?
          rw [isDocument.path, Path.components_along _ isDocument.proper]
          simp
        have extended := isDocument.extension
        unfold Path.extension? at extended
        rw [named] at extended
        simp only [Option.bind_eq_bind, Option.bind_some] at extended
        have dot : '.' ∈ last := by
          by_contra none
          have all : last.reverse.dropWhile (· ≠ '.') = [] := by
            rw [List.dropWhile_eq_nil_iff]
            intro c member
            have differ : c ≠ '.' := by
              intro same
              exact none (List.mem_reverse.mp (same ▸ member))
            simpa using differ
          rw [all] at extended
          simp at extended
        change '.' ∈ Path.spelling ⟨List.intercalate ['/'] (earlier.concat last)⟩
        rw [Path.mem_spelling_iff (by decide)]
        refine ⟨last, ?_, dot⟩
        rw [Path.pieces_intercalate (by simp) fun name member => (isDocument.proper name member).plain]
        simp
  constructor <;>
  · intro reserved
    rw [reserved] at dotted
    revert dotted
    decide

-----------------------------------------------------------------------------------------
-- Documents that stay
-----------------------------------------------------------------------------------------

section

variable {writes : Location → Prop} {early late : Disk}

/-- A document is not written where no feature file is. -/
theorem IsDocument.plain (isDocument : IsDocument files source names) {start : Location}
    (plain : ∀ names, writes (files.sourceDirectory.place start ++ names) →
      (files.sourceDirectory.along names).extension? ≠ some Disk.featureExtension)
    : ¬ writes (source.path.place start) := by
  intro written
  rw [isDocument.path, Path.place_along _ isDocument.proper] at written
  exact plain names written (isDocument.path ▸ isDocument.extension)

theorem Found.later {entry : Entry} (isFound : Found files early source entry)
    (grows : Disk.Grows writes early late)
    (plain : ∀ names, writes (files.sourceDirectory.place early.current ++ names) →
      (files.sourceDirectory.along names).extension? ≠ some Disk.featureExtension)
    : Found files late source entry := by
  obtain ⟨names, isDocument⟩ := isFound.isDocument
  refine ⟨⟨names, isDocument⟩, ?_, isFound.isFile, isFound.modified⟩
  exact grows.find_file isFound.found isFound.isFile (isDocument.plain plain)

/-- The documents that were found are found again with their times. -/
theorem sources_of_grows (grows : Disk.Grows writes early late) (tree : early.IsTree)
    (direct : early.Direct files.sourceDirectory) (canOpen : early.canOpen = true)
    (plain : ∀ names, writes (files.sourceDirectory.place early.current ++ names) →
      (files.sourceDirectory.along names).extension? ≠ some Disk.featureExtension)
    (listed : sources files early = .ok found)
    : sources files late = .ok found := by
  obtain ⟨paths, met, each⟩ := sources_eq_ok_iff.mp listed
  refine sources_eq_ok_iff.mpr ⟨paths, grows.featureFiles tree direct canOpen plain met, ?_⟩
  refine List.forall₂_iff_get.mpr ⟨each.length_eq, fun index bound boundFound => ?_⟩
  have made := (List.forall₂_iff_get.mp each).2 index bound boundFound
  obtain ⟨samePath, entry, isFound⟩ := found_of_sourceAt tree met (List.get_mem paths ⟨index, bound⟩) made
  have timed := isFound.recordedTime
  have timedLater := (isFound.later grows plain).recordedTime
  rw [samePath] at timed timedLater
  unfold sourceAt at made ⊢
  rw [timedLater, ← timed]
  exact made

end

end Refresh

end FeaturePress
