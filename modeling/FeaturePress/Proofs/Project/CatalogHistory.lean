import FeaturePress.Proofs.Project.Refresh

/-! Which definition of a group name the stored catalogue has after any history of edits and
refreshes: the one that was read last. A refresh of everything reads the documents in the order of
their paths, but one of the changed documents puts what it reads over what was read before, so the
definition of the last document wins only as long as it was also read last.
-/

namespace FeaturePress.Refresh

variable {files : StepGroupFiles} {force : Bool} {before after workspace : Workspace}
  {outcome : Refresh} {log : List StepGroup} {name : Text}

-----------------------------------------------------------------------------------------
-- Storing a catalogue
-----------------------------------------------------------------------------------------

/-- The catalogue document has a place of its own, and what stands there can be read. -/
structure Ready (files : StepGroupFiles) (workspace : Workspace) : Prop where
  bindings : files.catalog.place workspace.disk.current ≠ files.bindings.place workspace.disk.current
  provenance : ∀ path, workspace.provenance.file? = some path →
    files.catalog.place workspace.disk.current ≠ path.place workspace.disk.current
  readable : ∀ entry, workspace.disk.entry? (files.catalog.place workspace.disk.current) = some entry →
    entry.access.readable = true

/-- The digest tells the text of a catalogue from another one that is in its file. -/
def Tells (files : StepGroupFiles) (disk : Disk) (catalog : Catalog) : Prop :=
  ∀ old, disk.read files.catalog = .ok old →
    Text.digest old = Text.digest (Document.write catalog) → old = Document.write catalog

/-- Writing the catalogue where it has changed leaves its text to be read. -/
theorem read_of_writeIfChanged {disk written : Disk} {catalog : Catalog} {changed : Bool}
    (tells : Tells files disk catalog)
    (readable : ∀ entry, disk.entry? (files.catalog.place disk.current) = some entry →
      entry.access.readable = true)
    (ok : disk.writeIfChanged files.catalog (Document.write catalog) = (.ok changed, written))
    : written.read files.catalog = .ok (Document.write catalog) := by
  rcases Disk.writeIfChanged_eq_ok ok with ⟨-, rfl, old, reads, digests⟩ | ⟨-, wrote⟩
  · rw [reads, tells old reads digests]
  · exact wrote.read readable

/-- After making the artifacts again the catalogue that was made is stored. -/
theorem existingCatalog?_of_regenerate {found : List Source} {scope : Scope} {catalog : Catalog}
    (ready : Ready files before) (tells : Tells files before.disk catalog)
    (ok : regenerate files found scope catalog before = .ok outcome after)
    : existingCatalog? files after.disk = some catalog ∧ Ready files after := by
  obtain ⟨_, _, first, second, record, wrote, bound, -, saved, -, -⟩ := regenerate_eq_ok ok
  have stored := read_of_writeIfChanged tells ready.readable wrote
  have frame₁ := Disk.frame_writeIfChanged before.disk files.catalog (Document.write catalog)
  have frame₂ := Disk.frame_writeIfChanged first files.bindings (Bindings.file catalog)
  have frame₃ := before.provenance.frame_save second record
  rw [wrote] at frame₁
  rw [bound] at frame₂
  rw [saved] at frame₃
  have current₁ : first.current = before.disk.current := frame₁.current
  have current₂ : second.current = before.disk.current := frame₂.current.trans current₁
  have current₃ : after.disk.current = before.disk.current := frame₃.current.trans current₂
  -- neither the bindings nor the record are written over the catalogue
  have kept₂ : second.read files.catalog = .ok (Document.write catalog) := by
    rcases Disk.writeIfChanged_eq_ok bound with ⟨-, rfl, -⟩ | ⟨-, wroteBindings⟩
    · exact stored
    · exact frame₂.read_kept stored (wroteBindings.avoids (current₁ ▸ ready.bindings))
  have kept₃ : after.disk.read files.catalog = .ok (Document.write catalog) :=
    frame₃.read_kept kept₂ (Store.avoids_of_save saved (current₂ ▸ ready.provenance))
  have sameFile : after.provenance.file? = before.provenance.file? := by
    have := before.provenance.file?_save second record
    rwa [saved] at this
  constructor
  · have loads := Document.load_eq_some_iff.mpr ⟨_, kept₃, Catalog.readsBack catalog⟩
    simp [existingCatalog?, loads]
  · refine ⟨current₃ ▸ ready.bindings, current₃ ▸ sameFile ▸ ready.provenance, ?_⟩
    intro entry stands
    obtain ⟨other, found, readable, -⟩ := Disk.read_eq_ok kept₃
    rw [Disk.find_eq_ok found, Option.some.injEq] at stands
    exact stands ▸ readable

-----------------------------------------------------------------------------------------
-- Histories
-----------------------------------------------------------------------------------------

/-- The definitions that have been read after a run, in the order of reading: a run that reads
everything begins anew, one that reads changed documents goes on.
-/
def extend (files : StepGroupFiles) (force : Bool) (workspace : Workspace) (log : List StepGroup)
    : List StepGroup :=
  match pending? files force workspace with
  | none => log
  | some (.full, documents, _) => declared workspace.disk documents
  | some (.incremental _, documents, _) => log ++ declared workspace.disk documents

/-- The workspaces that edits and refreshes lead to from one without a usable record, with the
definitions that have been read on the way. An edit may be anything that leaves the stored catalogue
and the record as they are.
-/
inductive History (files : StepGroupFiles) : Workspace → List StepGroup → Prop where
  | start {workspace : Workspace} (ready : Ready files workspace)
      (unrecorded : workspace.provenance.loadUsable workspace.disk = none)
      : History files workspace []
  | edit {before after : Workspace} {log : List StepGroup} (history : History files before log)
      (ready : Ready files after)
      (catalog : existingCatalog? files after.disk = existingCatalog? files before.disk)
      (record : after.provenance.loadUsable after.disk
        = before.provenance.loadUsable before.disk)
      : History files after log
  | refresh {before after : Workspace} {log : List StepGroup} {force : Bool} {outcome : Refresh}
      (history : History files before log)
      (tells : Tells files before.disk (Catalog.ofGroups (extend files force before log)))
      (ran : run files force before = .ok outcome after)
      : History files after (extend files force before log)

/-- Changes that spare the ways to the catalogue and to the record are an edit, such as any change of
the documents where these are kept apart.
-/
theorem History.editWithin {territory : Disk.Territory} {disk : Disk}
    (history : History files before log) (ready : Ready files before)
    (frame : Disk.Frame territory before.disk disk)
    (sparesCatalog : Disk.Inside (territory.Spares before.disk) before.disk.current files.catalog)
    (sparesRecord : ∀ path, before.provenance.file? = some path →
      Disk.Inside (territory.Spares before.disk) before.disk.current path)
    : History files { before with disk } log := by
  refine .edit history ⟨?_, ?_, ?_⟩ ?_ ?_
  · exact frame.current ▸ ready.bindings
  · exact frame.current ▸ ready.provenance
  · intro entry stands
    have same := frame.agree.same _ sparesCatalog.place
    have stands : disk.entry? (files.catalog.place before.disk.current) = some entry :=
      frame.current ▸ stands
    rw [stands] at same
    obtain ⟨old, stood, shape⟩ := Option.map_eq_some_iff.mp same
    rw [← Disk.Agree.access_of_shape shape]
    exact ready.readable old stood
  · unfold existingCatalog?
    rw [Document.load_of_agree frame.agree sparesCatalog]
  · exact (Store.loadUsable_of_agree frame.agree sparesRecord).symm

/-- What holds on the way: with a usable record, what is stored is the catalogue of the definitions
that have been read.
-/
structure Follows (files : StepGroupFiles) (workspace : Workspace) (log : List StepGroup) : Prop where
  ready : Ready files workspace
  stored : workspace.provenance.loadUsable workspace.disk = none
    ∨ existingCatalog? files workspace.disk = some (Catalog.ofGroups log)

/-- A run that succeeds stores the catalogue of the definitions that have been read. -/
theorem existingCatalog?_of_run (follows : Follows files before log)
    (tells : Tells files before.disk (Catalog.ofGroups (extend files force before log)))
    (ran : run files force before = .ok outcome after)
    : existingCatalog? files after.disk = some (Catalog.ofGroups (extend files force before log))
      ∧ Ready files after := by
  obtain ⟨found, times, listed, timed, result⟩ := run_eq_ok ran
  have stored (partly : ∀ documents start, pending? files force before ≠ some (.full, documents, start))
      : existingCatalog? files before.disk = some (Catalog.ofGroups log) :=
    follows.stored.resolve_left (loadUsable_ne_none listed timed partly)
  rcases result with ⟨idle, -, rfl⟩ | ⟨scope, documents, start, catalog, planned, gathered, ok⟩
  · have same : extend files force after log = log := by simp [extend, idle]
    rw [same]
    exact ⟨stored (by simp [idle]), follows.ready⟩
  · have made : catalog = Catalog.ofGroups (extend files force before log) := by
      rw [gather_eq_ok gathered]
      rcases pending?_cases listed planned with ⟨rfl, -, rfl⟩ | ⟨rfl, existing⟩
      · have new : extend files force before log = declared before.disk documents := by
          simp [extend, planned]
        rw [new]
        rfl
      · have more : extend files force before log = log ++ declared before.disk documents := by
          simp [extend, planned]
        have begins : start = Catalog.ofGroups log := by
          rw [stored (by simp [planned]), Option.some.injEq] at existing
          exact existing.symm
        rw [more, begins, Catalog.ofGroups_append]
    subst made
    exact existingCatalog?_of_regenerate follows.ready tells ok

/-- Every history follows its log, by induction on its steps. -/
theorem History.follows (history : History files workspace log) : Follows files workspace log := by
  induction history with
  | start ready unrecorded => exact ⟨ready, Or.inl unrecorded⟩
  | edit _ ready catalog record ih =>
      refine ⟨ready, ?_⟩
      rw [catalog, record]
      exact ih.stored
  | refresh _ tells ran ih =>
      obtain ⟨stored, ready⟩ := existingCatalog?_of_run ih tells ran
      exact ⟨ready, Or.inr stored⟩

-----------------------------------------------------------------------------------------
-- Which definition wins
-----------------------------------------------------------------------------------------

/-- A refresh that reads everything stores the definition of the last document. -/
theorem find?_of_full {documents : List Source} {start : Catalog}
    (history : History files before log)
    (tells : Tells files before.disk (Catalog.ofGroups (extend files force before log)))
    (ran : run files force before = .ok outcome after)
    (planned : pending? files force before = some (.full, documents, start))
    : ∃ catalog, existingCatalog? files after.disk = some catalog
        ∧ catalog.find? name
          = (StepGroup.last? name (current files before.disk)).map StepGroup.entry := by
  obtain ⟨stored, -⟩ := existingCatalog?_of_run history.follows tells ran
  obtain ⟨found, times, listed, -, -⟩ := run_eq_ok ran
  refine ⟨_, stored, ?_⟩
  rcases pending?_cases listed planned with ⟨-, rfl, -⟩ | ⟨partly, -⟩
  · rw [Catalog.find?_ofGroups]
    simp [extend, planned, current, listed]
  · simp at partly

/-- A refresh of changed documents stores the definition of the last of these that declares a name. -/
theorem find?_of_changed {documents : List Source} {start : Catalog} {keys : List Text}
    {group : StepGroup} (history : History files before log)
    (tells : Tells files before.disk (Catalog.ofGroups (extend files force before log)))
    (ran : run files force before = .ok outcome after)
    (planned : pending? files force before = some (.incremental keys, documents, start))
    (last : StepGroup.last? name (declared before.disk documents) = some group)
    : ∃ catalog, existingCatalog? files after.disk = some catalog
        ∧ catalog.find? name = some group.entry := by
  obtain ⟨stored, -⟩ := existingCatalog?_of_run history.follows tells ran
  refine ⟨_, stored, ?_⟩
  have more : extend files force before log = log ++ declared before.disk documents := by
    simp [extend, planned]
  rw [more, Catalog.ofGroups_append, Catalog.find?_foldl_put, last]
  rfl

/-- After a refresh that follows any history the stored catalogue has the definition of a name that
was read last. It is that of the last document that declares the name exactly when the last document
was also the one that was read last, or the two agree.
-/
theorem find?_eq_last_declared_iff_last_read (history : History files before log)
    (tells : Tells files before.disk (Catalog.ofGroups (extend files force before log)))
    (ran : run files force before = .ok outcome after)
    (isDeclared : ∃ group ∈ current files before.disk, group.name = name)
    : ∃ catalog group, existingCatalog? files after.disk = some catalog
        ∧ StepGroup.last? name (current files before.disk) = some group
        ∧ catalog.find? name
          = (StepGroup.last? name (extend files force before log)).map StepGroup.entry
        ∧ (catalog.find? name = some group.entry
          ↔ (StepGroup.last? name (extend files force before log)).map StepGroup.entry
              = some group.entry) := by
  obtain ⟨stored, -⟩ := existingCatalog?_of_run history.follows tells ran
  have present : (StepGroup.last? name (current files before.disk)).isSome := by
    obtain ⟨group, member, named⟩ := isDeclared
    unfold StepGroup.last?
    rw [List.find?_isSome]
    exact ⟨group, List.mem_reverse.mpr member, by simpa using named⟩
  obtain ⟨group, last⟩ := Option.isSome_iff_exists.mp present
  have read := Catalog.find?_ofGroups (extend files force before log) name
  exact ⟨_, group, stored, last, read, by rw [read]⟩

-----------------------------------------------------------------------------------------
-- Two documents that declare one name
-----------------------------------------------------------------------------------------

/-- The files of an example. -/
def exampleFiles : StepGroupFiles := ⟨.of "g", .of "c", .of "p", .of "b"⟩

/-- A directory of the example. -/
def exampleDirectory : Entry := ⟨.directory, 0, ⟨true, true, true⟩⟩

/-- A document of the example: it declares one group, which has the given description. -/
def exampleDocument (description : String) : Entry :=
  ⟨.file (.text ("@StepGroup:a @StepGroup\nExample:" ++ description).toList), 5,
    ⟨true, true, false⟩⟩

/-- Two documents that declare the same name, and nothing generated yet. -/
def twoDocuments : Workspace where
  disk := {
    entries := ⟨[([], exampleDirectory), ([['g']], exampleDirectory),
      ([['g'], "a.feature".toList], exampleDocument "x"),
      ([['g'], "b.feature".toList], exampleDocument "y")], by decide⟩
    current := []
    clock := 100
    canOpen := true }
  provenance := .file exampleFiles.provenance
  metadata := .memory none 0

/-- The workspace after a refresh and an edit that gives the first document a new time only. -/
def firstTouched : Workspace :=
  let refreshed := Command.left (run exampleFiles false twoDocuments)
  { refreshed with
    disk := refreshed.disk.put [['g'], "a.feature".toList] { exampleDocument "x" with modified := 200 } }

/-- Witness: the first refresh of two documents. -/
theorem find?_eq_last_declared_iff_last_read_two_documents
    : ∃ catalog group,
        existingCatalog? exampleFiles
          (Command.left (run exampleFiles false twoDocuments)).disk = some catalog
        ∧ StepGroup.last? "a.sg".toList (current exampleFiles twoDocuments.disk)
          = some group
        ∧ catalog.find? "a.sg".toList
          = (StepGroup.last? "a.sg".toList
              (extend exampleFiles false twoDocuments [])).map StepGroup.entry
        ∧ (catalog.find? "a.sg".toList = some group.entry
          ↔ (StepGroup.last? "a.sg".toList
              (extend exampleFiles false twoDocuments [])).map StepGroup.entry
              = some group.entry) := by
  have vacant : twoDocuments.disk.entry? (exampleFiles.catalog.place []) = none := by
    decide +kernel
  have unread : (twoDocuments.disk.read exampleFiles.catalog).toOption = none := by
    decide +kernel
  have ready : Ready exampleFiles twoDocuments := by
    refine ⟨by decide +kernel, ?_, ?_⟩
    · intro path same
      obtain rfl : exampleFiles.provenance = path := by
        simpa [twoDocuments, Store.file?] using same
      decide +kernel
    · intro entry stands
      change twoDocuments.disk.entry? (exampleFiles.catalog.place []) = _ at stands
      simp [vacant] at stands
  have unrecorded : twoDocuments.provenance.loadUsable twoDocuments.disk = none := by
    decide +kernel
  have done : Command.succeeds (run exampleFiles false twoDocuments) = true := by
    decide +kernel
  obtain ⟨outcome, ran⟩ := Command.eq_ok_of_succeeds done
  refine find?_eq_last_declared_iff_last_read (.start ready unrecorded) ?_ ran (by decide +kernel)
  intro old reads
  simp [reads, Except.toOption] at unread

set_option maxRecDepth 100000 in
/-- Counterexample: after the first document got a new time its definition is stored, although the
second document still declares the name.
-/
theorem find?_touched_ne_last_declared
    : (existingCatalog? exampleFiles
          (Command.left (run exampleFiles false firstTouched)).disk).bind
          (·.find? "a.sg".toList) = some ⟨['x'], []⟩
        ∧ (StepGroup.last? "a.sg".toList
            (current exampleFiles firstTouched.disk)).map StepGroup.entry
          = some ⟨['y'], []⟩ := by
  decide +kernel

end FeaturePress.Refresh
