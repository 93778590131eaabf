import FeaturePress.Project.Refresh
import FeaturePress.Proofs.Project.Command
import FeaturePress.Proofs.State.Saving
import FeaturePress.Proofs.StepGroup.Catalog

/-! What a refresh of the step groups reads and what it leaves: it puts the groups of the documents that
it reads over the catalogue that it begins with, and the catalogue that it has made is the one that is
loaded afterwards.
-/

namespace FeaturePress

-----------------------------------------------------------------------------------------
-- The stored catalogue
-----------------------------------------------------------------------------------------

/-- The catalogue that is loaded depends on the text that is read only. -/
theorem Catalog.loadOrEmpty_congr {early late : Disk} {path : Path}
    (same : ∀ text, late.read path = .ok text ↔ early.read path = .ok text)
    : loadOrEmpty late path = loadOrEmpty early path := by
  have loadOrEmpty_of_error {disk : Disk} {error : FileError} (fails : disk.read path = .error error)
      : Catalog.loadOrEmpty disk path = SortedMap.empty := by
    unfold Catalog.loadOrEmpty Document.load Disk.readOptional Disk.optional
    rw [fails]
    cases error <;> rfl
  cases reads : early.read path with
  | ok text =>
      unfold Catalog.loadOrEmpty Document.load Disk.readOptional
      rw [(same text).mpr reads, reads]
  | error error =>
      cases readsLate : late.read path with
      | ok text => simp [(same text).mp readsLate] at reads
      | error other => rw [loadOrEmpty_of_error reads, loadOrEmpty_of_error readsLate]

namespace Refresh

-----------------------------------------------------------------------------------------
-- What is read
-----------------------------------------------------------------------------------------

/-- The groups that a document declares; one that cannot be read declares none. -/
def groupsAt (disk : Disk) (source : Source) : List StepGroup :=
  match disk.read source.path with
  | .error _ => []
  | .ok text =>
    match StepGroup.ofDocument text source.path.spelling with
    | .error _ => []
    | .ok groups => groups

/-- The groups that some documents declare, in their order. -/
def declared (disk : Disk) (documents : List Source) : List StepGroup :=
  documents.flatMap (groupsAt disk)

/-- Gathering puts the groups of the documents over the catalogue in their order. -/
theorem gather_eq_ok {disk : Disk} {documents : List Source} {start catalog : Catalog}
    (ok : gather disk documents start = .ok catalog)
    : catalog = (declared disk documents).foldl Catalog.put start := by
  induction documents generalizing start with
  | nil =>
      simp only [gather, Except.ok.injEq] at ok
      exact ok.symm
  | cons source rest ih =>
      unfold gather at ok
      split at ok
      · simp at ok
      · next text reads =>
          split at ok
          · simp at ok
          · next groups extracted =>
              have here : groupsAt disk source = groups := by simp [groupsAt, reads, extracted]
              rw [ih ok, declared, declared, List.flatMap_cons, List.foldl_append, here]

/-- A document that can be read and is well-formed. -/
def Extracts (disk : Disk) (source : Source) : Prop :=
  ∃ text groups, disk.read source.path = .ok text
    ∧ StepGroup.ofDocument text source.path.spelling = .ok groups

/-- The groups of well-formed documents are gathered, by induction on the documents. -/
theorem gather_of_extracts {disk : Disk} {found : List Source}
    (extracts : ∀ source ∈ found, Extracts disk source) (start : Catalog)
    : gather disk found start = .ok ((declared disk found).foldl Catalog.put start) := by
  have gathered : ∃ catalog, gather disk found start = .ok catalog := by
    induction found generalizing start with
    | nil => exact ⟨start, rfl⟩
    | cons first rest ih =>
        obtain ⟨text, groups, reads, extracted⟩ := extracts first (List.mem_cons_self ..)
        unfold gather
        rw [reads]
        dsimp only
        rw [extracted]
        exact ih (fun source member => extracts source (List.mem_cons_of_mem _ member)) _
  obtain ⟨catalog, gathered⟩ := gathered
  rw [gathered, gather_eq_ok gathered]

/-- Documents whose groups are gathered are well-formed, by induction on the documents. -/
theorem extracts_of_gather {disk : Disk} {documents : List Source} {start catalog : Catalog}
    {source : Source} (gathered : gather disk documents start = .ok catalog) (member : source ∈ documents)
    : Extracts disk source := by
  induction documents generalizing start with
  | nil => exact absurd member List.not_mem_nil
  | cons first rest ih =>
      unfold gather at gathered
      split at gathered
      · simp at gathered
      · next text reads =>
          split at gathered
          · simp at gathered
          · next groups extracted =>
              rcases List.mem_cons.mp member with rfl | member
              · exact ⟨text, groups, reads, extracted⟩
              · exact ih gathered member

/-- The groups that the documents of a disk declare, in the order of the documents' paths. -/
def current (files : StepGroupFiles) (disk : Disk) : List StepGroup :=
  match sources files disk with
  | .error _ => []
  | .ok found => declared disk found

/-- What a run would read, with the scope and the catalogue that it begins with; nothing when there is
nothing to do or the documents cannot be listed.
-/
def pending? (files : StepGroupFiles) (force : Bool) (workspace : Workspace)
    : Option (Scope × List Source × Catalog) :=
  match sources files workspace.disk, artifactTimes files workspace.disk with
  | .ok found, .ok times =>
    scopeOf (existingCatalog? files workspace.disk) found
      (plan force (workspace.provenance.loadUsable workspace.disk) found times)
  | _, _ => none

/-- A plan to read some documents only has a record, and reads those that are not as recorded. -/
theorem plan_eq_only {force : Bool} {record : Option Provenance} {found documents : List Source}
    {times : ArtifactTimes} (partly : plan force record found times = .only documents)
    : ∃ known, record = some known ∧ documents = changed known found := by
  unfold plan at partly
  split at partly
  · simp at partly
  · next known =>
      split at partly
      · simp at partly
      · split at partly
        · simp at partly
        · exact ⟨known, rfl, (Plan.only.inj partly).symm⟩

/-- The two ways in which a plan says what to read: all documents over nothing, or those that have
changed over the catalogue that exists.
-/
theorem scopeOf_eq_some {existing : Option Catalog} {found documents : List Source} {plan : Plan}
    {scope : Scope} {start : Catalog}
    (planned : scopeOf existing found plan = some (scope, documents, start))
    : (scope = .full ∧ documents = found ∧ start = SortedMap.empty)
      ∨ (scope = .incremental (documents.map Source.key) ∧ plan = .only documents
        ∧ existing = some start) := by
  unfold scopeOf at planned
  split at planned
  · simp at planned
  · left
    simpa [eq_comm] using planned
  · split at planned
    · right
      simp only [Option.some.injEq, Prod.mk.injEq] at planned
      obtain ⟨rfl, rfl, rfl⟩ := planned
      exact ⟨rfl, rfl, rfl⟩
    · left
      simpa [eq_comm] using planned

/-- What is pending is all that was found over nothing, or a part over the stored catalogue. -/
theorem pending?_cases {files : StepGroupFiles} {force : Bool} {workspace : Workspace}
    {found documents : List Source} {scope : Scope} {start : Catalog}
    (listed : sources files workspace.disk = .ok found)
    (planned : pending? files force workspace = some (scope, documents, start))
    : (scope = .full ∧ documents = found ∧ start = SortedMap.empty)
      ∨ (scope = .incremental (documents.map Source.key)
        ∧ existingCatalog? files workspace.disk = some start) := by
  unfold pending? at planned
  rw [listed] at planned
  split at planned
  · next other times same _ =>
      obtain rfl : found = other := by simpa using same
      rcases scopeOf_eq_some planned with full | ⟨partly, -, existing⟩
      · exact Or.inl full
      · exact Or.inr ⟨partly, existing⟩
  · simp at planned

/-- What a refresh reads are documents that it has found. -/
theorem subset_of_pending? {files : StepGroupFiles} {force : Bool} {workspace : Workspace}
    {found documents : List Source} {scope : Scope} {start : Catalog}
    (listed : sources files workspace.disk = .ok found)
    (planned : pending? files force workspace = some (scope, documents, start))
    : documents ⊆ found := by
  unfold pending? at planned
  rw [listed] at planned
  split at planned
  · next other times same _ =>
      obtain rfl := Except.ok.inj same
      rcases scopeOf_eq_some planned with ⟨-, rfl, -⟩ | ⟨-, partly, -⟩
      · exact List.Subset.refl _
      · obtain ⟨known, -, rfl⟩ := plan_eq_only partly
        exact List.filter_subset_self found
  · simp at planned

/-- A run for which nothing is pending has a record, and so has one that reads changed documents. -/
theorem loadUsable_ne_none {files : StepGroupFiles} {force : Bool} {workspace : Workspace}
    {found : List Source} {times : ArtifactTimes}
    (listed : sources files workspace.disk = .ok found)
    (timed : artifactTimes files workspace.disk = .ok times)
    (partly : ∀ documents start, pending? files force workspace ≠ some (.full, documents, start))
    : workspace.provenance.loadUsable workspace.disk ≠ none := by
  intro unrecorded
  unfold pending? at partly
  simp [listed, timed, unrecorded, plan, scopeOf] at partly

-----------------------------------------------------------------------------------------
-- Runs that succeed
-----------------------------------------------------------------------------------------

/-- The steps of making the artifacts again, when it succeeds. -/
theorem regenerate_eq_ok {files : StepGroupFiles} {found : List Source} {scope : Scope}
    {catalog : Catalog} {before after : Workspace} {outcome : Refresh}
    (ok : regenerate files found scope catalog before = .ok outcome after)
    : ∃ catalogWritten bindingsWritten first second record,
        before.disk.writeIfChanged files.catalog (Document.write catalog)
          = (.ok catalogWritten, first)
        ∧ first.writeIfChanged files.bindings (Bindings.file catalog) = (.ok bindingsWritten, second)
        ∧ presentRecord files found second = .ok record
        ∧ before.provenance.save second record = (.ok (), after.disk, after.provenance)
        ∧ outcome = .regenerated scope catalog.size catalogWritten bindingsWritten
        ∧ after.metadata = before.metadata := by
  unfold regenerate at ok
  obtain ⟨catalogWritten, w₁, ok₁, rest₁⟩ := Command.bind_eq_ok ok
  obtain ⟨bindingsWritten, w₂, ok₂, rest₂⟩ := Command.bind_eq_ok rest₁
  obtain ⟨record, w₃, ok₃, rest₃⟩ := Command.bind_eq_ok rest₂
  obtain ⟨⟨⟩, w₄, ok₄, rest₄⟩ := Command.bind_eq_ok rest₃
  obtain ⟨wrote, same₁⟩ := Command.change_eq_ok ok₁
  obtain ⟨bound, same₂⟩ := Command.change_eq_ok ok₂
  obtain ⟨present, same₃⟩ := Command.look_eq_ok ok₃
  subst same₃
  obtain ⟨saved, metadata⟩ := Command.saveProvenance_eq_ok ok₄
  obtain ⟨regenerated, same₄⟩ := Command.pure_eq_ok rest₄
  subst same₄
  have provenance : w₃.provenance = before.provenance := by rw [same₂, same₁]
  refine ⟨catalogWritten, bindingsWritten, w₁.disk, w₃.disk, record, wrote, bound, present, ?_,
    regenerated.symm, ?_⟩
  · rw [← provenance]
    exact saved
  · rw [metadata, same₂, same₁]

/-- A run that succeeds has done nothing, or it has read what was pending and made the artifacts. -/
theorem run_eq_ok {files : StepGroupFiles} {force : Bool} {before after : Workspace}
    {outcome : Refresh} (ok : run files force before = .ok outcome after)
    : ∃ found times, sources files before.disk = .ok found
        ∧ artifactTimes files before.disk = .ok times
        ∧ ((pending? files force before = none ∧ outcome = .fresh ∧ after = before)
          ∨ ∃ scope documents start catalog,
              pending? files force before = some (scope, documents, start)
              ∧ gather before.disk documents start = .ok catalog
              ∧ regenerate files found scope catalog before = .ok outcome after) := by
  unfold run at ok
  obtain ⟨found, w₁, ok₁, rest₁⟩ := Command.bind_eq_ok ok
  obtain ⟨times, w₂, ok₂, rest₂⟩ := Command.bind_eq_ok rest₁
  obtain ⟨workspace, w₃, ok₃, rest₃⟩ := Command.bind_eq_ok rest₂
  obtain ⟨listed, same₁⟩ := Command.look_eq_ok ok₁
  subst same₁
  obtain ⟨timed, same₂⟩ := Command.look_eq_ok ok₂
  subst same₂
  obtain ⟨same₃, same₄⟩ := Command.get_eq_ok ok₃
  subst same₃ same₄
  refine ⟨found, times, listed, timed, ?_⟩
  unfold pending?
  rw [listed, timed]
  dsimp only at rest₃ ⊢
  generalize scopeOf _ _ _ = planned at rest₃ ⊢
  cases planned with
  | none =>
      obtain ⟨fresh, same⟩ := Command.pure_eq_ok rest₃
      exact Or.inl ⟨rfl, fresh.symm, same.symm⟩
  | some planned =>
      obtain ⟨scope, documents, start⟩ := planned
      obtain ⟨catalog, w₄, ok₄, rest₄⟩ := Command.bind_eq_ok rest₃
      obtain ⟨gathered, same⟩ := Command.require_eq_ok ok₄
      subst same
      exact Or.inr ⟨scope, documents, start, catalog, rfl, gathered, rest₄⟩

/-- A refresh leaves the store of cached files alone. -/
theorem metadata_run {files : StepGroupFiles} {force : Bool} {before after : Workspace}
    {outcome : Refresh} (ok : run files force before = .ok outcome after)
    : after.metadata = before.metadata := by
  obtain ⟨found, times, -, -, ⟨-, -, rfl⟩ | ⟨scope, documents, start, catalog, -, -, made⟩⟩ := run_eq_ok ok
  · rfl
  · obtain ⟨_, _, _, _, _, -, -, -, -, -, same⟩ := regenerate_eq_ok made
    exact same

/-- The steps of a run that reads what is pending, one after the other. -/
theorem run_of_steps {files : StepGroupFiles} {force catalogWritten bindingsWritten : Bool}
    {before : Workspace} {found documents : List Source} {times : ArtifactTimes} {scope : Scope}
    {start catalog : Catalog} {first second last : Disk} {record : Provenance} {store : Store Provenance}
    (listed : sources files before.disk = .ok found) (timed : artifactTimes files before.disk = .ok times)
    (planned : pending? files force before = some (scope, documents, start))
    (gathered : gather before.disk documents start = .ok catalog)
    (wrote : before.disk.writeIfChanged files.catalog (Document.write catalog) = (.ok catalogWritten, first))
    (bound : first.writeIfChanged files.bindings (Bindings.file catalog) = (.ok bindingsWritten, second))
    (present : presentRecord files found second = .ok record)
    (saved : before.provenance.save second record = (.ok (), last, store))
    : run files force before
      = .ok (.regenerated scope catalog.size catalogWritten bindingsWritten)
          { before with disk := last, provenance := store } := by
  unfold pending? at planned
  rw [listed, timed] at planned
  dsimp only at planned
  unfold run regenerate
  simp only [bind, EStateM.bind, Command.look, Command.require, listed, timed, Command.get_eq,
    planned, gathered, Command.change, wrote, bound, present,
    Command.saveProvenance, saved, pure, EStateM.pure]

-----------------------------------------------------------------------------------------
-- Runs that fail
-----------------------------------------------------------------------------------------

/-- Where making the artifacts again can stop: at writing the catalogue, at writing the bindings, at
asking for the times, and at saving these.
-/
theorem regenerate_eq_error {files : StepGroupFiles} {found : List Source} {scope : Scope}
    {catalog : Catalog} {before after : Workspace} {error : CommandError}
    (failed : regenerate files found scope catalog before = .error error after)
    : (∃ cause first, before.disk.writeIfChanged files.catalog (Document.write catalog)
          = (.error cause, first) ∧ error = .file cause ∧ after = { before with disk := first })
      ∨ ∃ catalogWritten first, before.disk.writeIfChanged files.catalog (Document.write catalog)
          = (.ok catalogWritten, first)
        ∧ ((∃ cause second, first.writeIfChanged files.bindings (Bindings.file catalog)
              = (.error cause, second) ∧ error = .file cause ∧ after = { before with disk := second })
          ∨ ∃ bindingsWritten second, first.writeIfChanged files.bindings (Bindings.file catalog)
              = (.ok bindingsWritten, second)
            ∧ ((∃ cause, presentRecord files found second = .error cause ∧ error = .file cause
                ∧ after = { before with disk := second })
              ∨ ∃ record cause disk provenance, presentRecord files found second = .ok record
                ∧ before.provenance.save second record = (.error cause, disk, provenance)
                ∧ error = .document cause ∧ after = { before with disk, provenance })) := by
  unfold regenerate at failed
  rcases Command.bind_eq_error failed with failed₁ | ⟨catalogWritten, w₁, ok₁, rest₁⟩
  · obtain ⟨cause, first, wrote, same, rfl⟩ := Command.change_eq_error failed₁
    exact Or.inl ⟨cause, first, wrote, same, rfl⟩
  obtain ⟨wrote, same₁⟩ := Command.change_eq_ok ok₁
  refine Or.inr ⟨catalogWritten, w₁.disk, wrote, ?_⟩
  rcases Command.bind_eq_error rest₁ with failed₂ | ⟨bindingsWritten, w₂, ok₂, rest₂⟩
  · obtain ⟨cause, second, bound, same, rfl⟩ := Command.change_eq_error failed₂
    exact Or.inl ⟨cause, second, bound, same, by rw [same₁]⟩
  obtain ⟨bound, same₂⟩ := Command.change_eq_ok ok₂
  refine Or.inr ⟨bindingsWritten, w₂.disk, bound, ?_⟩
  have same₂ : w₂ = { before with disk := w₂.disk } := by rw [same₂, same₁]
  rcases Command.bind_eq_error rest₂ with failed₃ | ⟨record, w₃, ok₃, rest₃⟩
  · obtain ⟨rfl, cause, absent, same⟩ := Command.look_eq_error failed₃
    exact Or.inl ⟨cause, absent, same, same₂⟩
  obtain ⟨present, same₃⟩ := Command.look_eq_ok ok₃
  subst same₃
  rcases Command.bind_eq_error rest₃ with failed₄ | ⟨_, w₄, -, rest₄⟩
  · obtain ⟨cause, disk, provenance, saved, same, rfl⟩ := Command.saveProvenance_eq_error failed₄
    rw [same₂] at saved
    exact Or.inr ⟨record, cause, disk, provenance, present, saved, same, by rw [same₂]⟩
  · exact absurd rest₄ (by simp [pure, EStateM.pure])

/-- Making the artifacts again fails for errors of the disk only. -/
theorem isOfDisk_of_regenerate_error {files : StepGroupFiles} {found : List Source} {scope : Scope}
    {catalog : Catalog} {before after : Workspace} {error : CommandError}
    (failed : regenerate files found scope catalog before = .error error after)
    : error.IsOfDisk := by
  rcases regenerate_eq_error failed with ⟨_, _, -, rfl, -⟩ |
    ⟨_, _, -, ⟨_, _, -, rfl, -⟩ | ⟨_, _, -, ⟨_, -, rfl, -⟩ | ⟨_, _, _, _, -, -, rfl, -⟩⟩⟩
  all_goals trivial

/-- Where a run can stop: at looking at the documents or at the artifacts, at reading the documents that
are pending, and at making the artifacts again.
-/
theorem run_eq_error {files : StepGroupFiles} {force : Bool} {before after : Workspace}
    {error : CommandError} (failed : run files force before = .error error after)
    : (after = before ∧ ∃ cause, error = .file cause
        ∧ (sources files before.disk = .error cause ∨ artifactTimes files before.disk = .error cause))
      ∨ ∃ found times scope documents start, sources files before.disk = .ok found
        ∧ artifactTimes files before.disk = .ok times
        ∧ pending? files force before = some (scope, documents, start)
        ∧ ((after = before ∧ gather before.disk documents start = .error error)
          ∨ ∃ catalog, gather before.disk documents start = .ok catalog
            ∧ regenerate files found scope catalog before = .error error after) := by
  unfold run at failed
  rcases Command.bind_eq_error failed with failed₁ | ⟨found, w₁, ok₁, rest₁⟩
  · obtain ⟨rfl, cause, unlisted, same⟩ := Command.look_eq_error failed₁
    exact Or.inl ⟨rfl, cause, same, Or.inl unlisted⟩
  obtain ⟨listed, rfl⟩ := Command.look_eq_ok ok₁
  rcases Command.bind_eq_error rest₁ with failed₂ | ⟨times, w₂, ok₂, rest₂⟩
  · obtain ⟨rfl, cause, untimed, same⟩ := Command.look_eq_error failed₂
    exact Or.inl ⟨rfl, cause, same, Or.inr untimed⟩
  obtain ⟨timed, rfl⟩ := Command.look_eq_ok ok₂
  rcases Command.bind_eq_error rest₂ with failed₃ | ⟨workspace, w₃, ok₃, rest₃⟩
  · simp [Command.get_eq] at failed₃
  obtain ⟨rfl, rfl⟩ := Command.get_eq_ok ok₃
  refine Or.inr ?_
  unfold pending?
  rw [listed, timed]
  dsimp only at rest₃ ⊢
  generalize scopeOf _ _ _ = planned at rest₃ ⊢
  cases planned with
  | none => exact absurd rest₃ (by simp [pure, EStateM.pure])
  | some planned =>
      obtain ⟨scope, documents, start⟩ := planned
      refine ⟨found, times, scope, documents, start, rfl, rfl, rfl, ?_⟩
      rcases Command.bind_eq_error rest₃ with failed₄ | ⟨catalog, w₄, ok₄, rest₄⟩
      · obtain ⟨rfl, cause, ungathered, rfl⟩ := Command.require_eq_error failed₄
        exact Or.inl ⟨rfl, ungathered⟩
      · obtain ⟨gathered, rfl⟩ := Command.require_eq_ok ok₄
        exact Or.inr ⟨catalog, gathered, rest₄⟩

-----------------------------------------------------------------------------------------
-- Runs that may fail
-----------------------------------------------------------------------------------------

/-- The territory of a refresh: the catalogue, the bindings and the record. -/
def territory (files : StepGroupFiles) (workspace : Workspace) : Disk.Territory :=
  ((Disk.Territory.written workspace.disk.current files.catalog).union
    (.written workspace.disk.current files.bindings)).union
    (workspace.provenance.territory workspace.disk.current)

theorem stable_territory (files : StepGroupFiles) : Command.Stable (territory files) := by
  intro bounds before after confined
  unfold territory Store.territory
  rw [confined.frame.current, confined.provenance]

theorem isProper_territory {workspace : Workspace} (proper : workspace.disk.Proper)
    (files : StepGroupFiles)
    : (territory files workspace).IsProper :=
  .union (.union (.written proper.current _) (.written proper.current _))
    (Store.isProper_territory proper.current workspace.provenance)

theorem withinCatalog (files : StepGroupFiles) (workspace : Workspace)
    : (Disk.Territory.written workspace.disk.current files.catalog).Within
        (territory files workspace) :=
  (Disk.Territory.within_union_left _ _).trans (Disk.Territory.within_union_left _ _)

theorem withinBindings (files : StepGroupFiles) (workspace : Workspace)
    : (Disk.Territory.written workspace.disk.current files.bindings).Within
        (territory files workspace) :=
  (Disk.Territory.within_union_right _ _).trans (Disk.Territory.within_union_left _ _)

/-- Making the artifacts again, whether it succeeds or not, changes nothing else. -/
theorem confined_regenerate (files : StepGroupFiles) (found : List Source) (scope : Scope)
    (catalog : Catalog) (before : Workspace)
    : Command.Confined (territory files before) before
        (Command.left (regenerate files found scope catalog before)) := by
  have stable := stable_territory files
  unfold regenerate
  refine .bind stable ?_ fun catalogWritten w₁ _ => .bind stable ?_ fun bindingsWritten w₂ _ =>
    .bind stable ?_ fun record w₃ _ => .bind stable ?_ fun _ w₄ _ => ?_
  · rw [Command.left_change]
    exact (Command.Confined.ofFrame (Disk.frame_writeIfChanged ..)).mono (withinCatalog ..)
  · rw [Command.left_change]
    exact (Command.Confined.ofFrame (Disk.frame_writeIfChanged ..)).mono (withinBindings ..)
  · rw [Command.left_look]
    exact Command.Confined.refl _ w₂
  · exact (Command.confined_saveProvenance record w₃).mono (Disk.Territory.within_union_right _ _)
  · exact Command.Confined.refl _ w₄

/-- A refresh, whether it succeeds or not, changes nothing but its artifacts and its record. -/
theorem confined_run (files : StepGroupFiles) (force : Bool) (before : Workspace)
    : Command.Confined (territory files before) before
        (Command.left (run files force before)) := by
  have stable := stable_territory files
  unfold run
  refine .bind stable ?_ fun found w₁ _ => .bind stable ?_ fun times w₂ _ =>
    .bind stable ?_ fun workspace w₃ _ => ?_
  · rw [Command.left_look]
    exact Command.Confined.refl _ before
  · rw [Command.left_look]
    exact Command.Confined.refl _ w₁
  · exact Command.Confined.refl _ w₂
  · generalize scopeOf _ _ _ = planned
    cases planned with
    | none => exact Command.Confined.refl _ w₃
    | some planned =>
        obtain ⟨scope, documents, start⟩ := planned
        refine .bind stable ?_ fun catalog w₄ _ => ?_
        · rw [Command.left_require]
          exact Command.Confined.refl _ w₃
        · exact confined_regenerate files found scope catalog w₄

end Refresh

end FeaturePress
