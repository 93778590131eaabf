import FeaturePress.Proofs.Disk.Rewriting
import FeaturePress.Proofs.Project.Freshness

/-! Refreshes that find the same step-group documents, artifacts and record. They do the same and leave the same
catalogue, whatever else stands on the disks.
-/

namespace FeaturePress.Refresh

variable {files : StepGroupFiles} {force : Bool} {left right leftAfter rightAfter : Workspace}
  {first second : Refresh} {found : List Source}

/-- Two workspaces in which a refresh finds the same: the documents with their texts, the times of the
artifacts, the record, and the catalogue, which may be read in both or in none.
-/
structure FindsSame (files : StepGroupFiles) (left right : Workspace) : Prop where
  documents : sources files left.disk = sources files right.disk
  texts : ∀ found, sources files left.disk = .ok found → ∀ source ∈ found,
    left.disk.read source.path = right.disk.read source.path
  times : artifactTimes files left.disk = artifactTimes files right.disk
  record : left.provenance.loadUsable left.disk = right.provenance.loadUsable right.disk
  catalog : left.disk.read files.catalog = right.disk.read files.catalog
  rights : left.disk.rightsOf (files.catalog.place left.disk.current)
    = right.disk.rightsOf (files.catalog.place right.disk.current)

/-- Documents that are read alike are gathered alike, by induction on the documents. -/
theorem gather_congr {disk other : Disk} {documents : List Source}
    (reads : ∀ source ∈ documents, disk.read source.path = other.read source.path) (start : Catalog)
    : gather disk documents start = gather other documents start := by
  induction documents generalizing start with
  | nil => rfl
  | cons source rest ih =>
      unfold gather
      rw [reads source (List.mem_cons_self ..)]
      split
      · rfl
      · split
        · rfl
        · exact ih (fun later member => reads later (List.mem_cons_of_mem source member)) _

/-- After the artifacts were made again the catalogue is read as it was written, since the bindings and the
record are written elsewhere.
-/
theorem read_catalog_of_regenerate {scope : Scope} {catalog : Catalog} (placed : Placed files left)
    (ok : regenerate files found scope catalog left = .ok first leftAfter)
    : ∃ wrote written, left.disk.writeIfChanged files.catalog (Document.write catalog) = (.ok wrote, written)
        ∧ leftAfter.disk.read files.catalog = written.read files.catalog := by
  obtain ⟨wrote, _, written, second, record, writing, bound, -, saved, -, -⟩ := regenerate_eq_ok ok
  refine ⟨wrote, written, writing, ?_⟩
  have grown : Disk.Grows (IsArtifact files left.disk.current) left.disk written :=
    (grows_artifacts writing bound).1
  have current : written.current = left.disk.current := grown.current
  have bindings : Disk.Grows (· = files.bindings.place left.disk.current) written second :=
    Disk.grows_writeIfChanged (by rw [current]) bound
  have recording : Disk.Grows (IsRecord left) second leftAfter.disk :=
    Store.grows_save (fun path isRecord => ⟨path, isRecord, by rw [bindings.current, current]⟩) saved
  obtain ⟨entry, stands, isFile⟩ := found_of_writeIfChanged writing
  have bound := bindings.find_file stands isFile (by rw [current]; exact placed.artifacts)
  have kept := recording.find_file bound isFile fun isRecord => by
    rw [bindings.current, current] at isRecord
    exact placed.record _ isRecord (Or.inl rfl)
  unfold Disk.read
  rw [kept, stands]

namespace FindsSame

theorem pending? (same : FindsSame files left right)
    : Refresh.pending? files force left = Refresh.pending? files force right := by
  unfold Refresh.pending? existingCatalog? Document.load Disk.readOptional
  rw [same.documents, same.times, same.record, same.catalog]

/-- Refreshes that find the same both do nothing or both make the artifacts again, and leave the same
catalogue.
-/
theorem run (same : FindsSame files left right) (placed : Placed files left) (placedRight : Placed files right)
    (ranLeft : Refresh.run files force left = .ok first leftAfter)
    (ranRight : Refresh.run files force right = .ok second rightAfter)
    : first.isRegenerated = second.isRegenerated
        ∧ leftAfter.disk.read files.catalog = rightAfter.disk.read files.catalog := by
  obtain ⟨found, _, listed, -, result⟩ := run_eq_ok ranLeft
  obtain ⟨others, _, listedRight, -, resultRight⟩ := run_eq_ok ranRight
  rw [← same.pending?] at resultRight
  rcases result with ⟨idle, rfl, rfl⟩ | ⟨scope, documents, start, catalog, planned, gathered, made⟩
  · rcases resultRight with ⟨-, rfl, rfl⟩ | ⟨_, _, _, _, planned, -, -⟩
    · exact ⟨rfl, same.catalog⟩
    · simp [idle] at planned
  · rcases resultRight with ⟨idle, -, -⟩ | ⟨_, _, _, other, plannedRight, gatheredRight, madeRight⟩
    · simp [planned] at idle
    · rw [planned] at plannedRight
      obtain ⟨rfl, rfl, rfl⟩ := by simpa using plannedRight
      -- the documents that are read are among those found, so both catalogues have the same groups
      have reads := fun source member => same.texts found listed source
        (subset_of_pending? listed planned member)
      rw [← gather_congr reads start, gathered] at gatheredRight
      obtain rfl := Except.ok.inj gatheredRight
      obtain ⟨_, written, wrote, after⟩ := read_catalog_of_regenerate placed made
      obtain ⟨_, writtenRight, wroteRight, afterRight⟩ := read_catalog_of_regenerate placedRight madeRight
      refine ⟨?_, ?_⟩
      · obtain ⟨_, _, _, _, _, -, -, -, -, rfl, -⟩ := regenerate_eq_ok made
        obtain ⟨_, _, _, _, _, -, -, -, -, rfl, -⟩ := regenerate_eq_ok madeRight
        rfl
      · rw [after, afterRight]
        exact Disk.read_of_writeIfChanged_congr same.catalog same.rights wrote wroteRight

end FindsSame

end FeaturePress.Refresh
