import FeaturePress.Proofs.Project.Freshness

/-! What a refresh that fails leaves: its record as it was, and everything as it was if it stops at a
document. Whatever else it has written has a time that the record does not have, so no later refresh takes
the project for up to date before one has succeeded.
-/

namespace FeaturePress.Refresh

variable {files : StepGroupFiles} {force : Bool} {before after later last workspace : Workspace}
  {error : CommandError} {found : List Source} {source : Source} {record : Provenance}

-----------------------------------------------------------------------------------------
-- Refreshes that fail one after the other
-----------------------------------------------------------------------------------------

/-- The workspaces that refreshes lead to which all fail. -/
inductive Failing (files : StepGroupFiles) (start : Workspace) : Workspace → Prop where
  | start : Failing files start start
  | again {before after : Workspace} {force : Bool} {error : CommandError}
      (earlier : Failing files start before) (failed : run files force before = .error error after)
      : Failing files start after

/-- However often a refresh fails, it writes the artifacts at most, by induction on the failures. -/
theorem grows_of_failing (failing : Failing files before later)
    : Disk.Grows (IsArtifact files before.disk.current) before.disk later.disk
      ∧ later.provenance = before.provenance := by
  induction failing with
  | start => exact ⟨.refl _ _, rfl⟩
  | again _ failed ih =>
      obtain ⟨early, same⟩ := ih
      obtain ⟨late, sameLater⟩ := grows_run_of_error failed
      rw [early.current] at late
      exact ⟨early.trans late, sameLater.trans same⟩

/-- Where the documents or the artifacts cannot be looked at nothing ever changes. -/
theorem eq_of_failing {cause : FileError}
    (unseen : sources files before.disk = .error cause ∨ artifactTimes files before.disk = .error cause)
    (failing : Failing files before later)
    : later = before := by
  induction failing with
  | start => rfl
  | again _ failed ih =>
      subst ih
      rcases run_eq_error failed with ⟨same, -⟩ | ⟨found, times, _, _, _, listed, timed, -, -⟩
      · exact same
      · rcases unseen with unlisted | untimed
        · simp [listed] at unlisted
        · simp [timed] at untimed

-----------------------------------------------------------------------------------------
-- Failing at a document
-----------------------------------------------------------------------------------------

/-- The documents cannot be listed with their times, or one of those that are pending cannot be read, or
one cannot be asked for its time afterwards.
-/
def IsUnreadable (files : StepGroupFiles) (force : Bool) (before after : Workspace) : Prop :=
  (∃ cause, sources files before.disk = .error cause)
  ∨ (∃ scope documents start, pending? files force before = some (scope, documents, start)
      ∧ ∃ source ∈ documents, ∃ cause, before.disk.read source.path = .error cause)
  ∨ ∃ found, sources files before.disk = .ok found
      ∧ ∃ source ∈ found, ∃ cause, after.disk.recordedTime source.path = .error cause

/-- A refresh that stops at a malformed or unreadable document leaves everything as it is. -/
theorem eq_of_error_at_document (tree : before.disk.IsTree) (placed : Placed files before)
    (failed : run files force before = .error error after)
    (atDocument : (∃ cause, error = .stepGroup cause) ∨ IsUnreadable files force before after)
    : after = before := by
  rcases run_eq_error failed with ⟨same, -⟩ | ⟨found, times, scope, documents, start, listed, -, planned,
    ⟨same, -⟩ | ⟨catalog, gathered, failed'⟩⟩
  · exact same
  · exact same
  · exfalso
    rcases atDocument with ⟨cause, rfl⟩ | ⟨cause, unlisted⟩ | ⟨_, _, _, other, source, member, cause, unread⟩
      | ⟨others, listed', source, member, cause, untimed⟩
    · rcases regenerate_eq_error failed' with ⟨_, _, -, same, -⟩ | ⟨_, _, -, ⟨_, _, -, same, -⟩
        | ⟨_, _, -, ⟨_, -, same, -⟩ | ⟨_, _, _, _, -, -, same, -⟩⟩⟩ <;> simp at same
    · simp [listed] at unlisted
    · rw [planned, Option.some.injEq, Prod.mk.injEq, Prod.mk.injEq] at other
      obtain ⟨-, rfl, -⟩ := other
      obtain ⟨text, -, reads, -⟩ := extracts_of_gather gathered member
      simp [reads] at unread
    · obtain ⟨entry, isFound⟩ := found_of_sources tree listed' member
      have timed := (isFound.later (grows_run_of_error failed).1 placed.plain).recordedTime
      simp [timed] at untimed

-----------------------------------------------------------------------------------------
-- What is seen after a failure
-----------------------------------------------------------------------------------------

/-- The paths of a refresh lead to something only through what stands. -/
structure IsDirect (files : StepGroupFiles) (workspace : Workspace) : Prop where
  documents : workspace.disk.Direct files.sourceDirectory
  catalog : workspace.disk.Direct files.catalog
  bindings : workspace.disk.Direct files.bindings
  record : ∀ path, workspace.provenance.file? = some path → workspace.disk.Direct path

/-- No moment after the given one has a time of the record. -/
def IsPast (record : Provenance) (clock : Int) : Prop :=
  ∀ key time, record.find? key = some time → ∀ moment, clock < moment → Disk.recorded moment ≠ time

/-- An artifact that has a time of an old record has had that time before. -/
theorem recordedTime_eq_of_isPast {writes : Location → Prop} {early lateDisk : Disk} {path : Path}
    {key : Text} {time late : Option Nat} (grows : Disk.Grows writes early lateDisk)
    (direct : early.Direct path) (past : IsPast record early.clock)
    (timed : early.recordedTime path = .ok time) (timedLater : lateDisk.recordedTime path = .ok late)
    (known : record.find? key = late)
    : late = time := by
  rcases grows.recordedTime_cases timed timedLater direct with same | ⟨moment, after, rfl⟩
  · exact same
  · exact absurd rfl (past key _ known moment after)

/-- A refresh that has failed is not followed by one that does nothing, unless one has succeeded. -/
theorem ne_fresh_of_failing (tree : before.disk.IsTree) (placed : Placed files before)
    (direct : IsDirect files before)
    (past : ∀ record, before.provenance.loadUsable before.disk = some record →
      IsPast record before.disk.clock)
    (failed : run files false before = .error error after) (failing : Failing files before later)
    : run files false later ≠ .ok .fresh last := by
  intro ran
  obtain ⟨others, otherTimes, listedLater, timedLater, -⟩ := run_eq_ok ran
  have seesLater : Sees files later.disk others otherTimes := ⟨listedLater, timedLater⟩
  obtain ⟨-, record, loadsLater, describes⟩ := (eq_fresh_iff seesLater ran).mp rfl
  rcases run_eq_error failed with ⟨-, cause, -, unseen⟩ | ⟨found, times, scope, documents, start, listed,
    timed, planned, -⟩
  · obtain rfl := eq_of_failing unseen failing
    simp [failed] at ran
  · obtain ⟨grows, same⟩ := grows_of_failing failing
    have canOpen := Disk.canOpen_of_recordedTime (artifactTimes_eq_ok_iff.mp timed).1
    obtain rfl : found = others := Except.ok.inj
      ((sources_of_grows grows tree direct.documents canOpen placed.plain listed).symm.trans listedLater)
    have loads : before.provenance.loadUsable before.disk = some record := by
      rw [← loadsLater, same]
      refine (Store.loadUsable_of_grows grows (fun path known => ?_) direct.record).symm
      exact placed.record _ ⟨path, known, rfl⟩
    obtain ⟨timedBindings, timedCatalog⟩ := artifactTimes_eq_ok_iff.mp timed
    obtain ⟨lateBindings, lateCatalog⟩ := artifactTimes_eq_ok_iff.mp timedLater
    have sameBindings := recordedTime_eq_of_isPast grows direct.bindings (past record loads)
      timedBindings lateBindings describes.bindings
    have sameCatalog := recordedTime_eq_of_isPast grows direct.catalog (past record loads)
      timedCatalog lateCatalog describes.catalog
    -- so the record has described what was seen at first, and the first refresh would have done nothing
    have describesFirst : Describes record found times :=
      ⟨describes.documents, describes.complete, describes.bindings.trans sameBindings,
        describes.catalog.trans sameCatalog⟩
    have idle : plan false (before.provenance.loadUsable before.disk) found times = .nothing :=
      plan_eq_nothing_iff.mpr ⟨rfl, record, loads, describesFirst⟩
    unfold pending? at planned
    rw [listed, timed] at planned
    simp [idle, scopeOf] at planned

/-- A refresh that fails keeps its record; if it stops at a malformed or unreadable document it leaves
everything as it is; and if it was not forced then no refresh takes the project for up to date, as long as
they all fail.
-/
theorem failure_keeps_record_and_shows (tree : before.disk.IsTree) (placed : Placed files before)
    (failed : run files force before = .error error after)
    : (after.provenance = before.provenance
        ∧ ∀ place entry, IsRecord before place → entry.isDirectory = false →
          (after.disk.entry? place = some entry ↔ before.disk.entry? place = some entry))
      ∧ ((∃ cause, error = .stepGroup cause) ∨ IsUnreadable files force before after → after = before)
      ∧ (force = false → IsDirect files before →
        (∀ record, before.provenance.loadUsable before.disk = some record →
          IsPast record before.disk.clock) →
        ∀ later last, Failing files before later → run files false later ≠ .ok .fresh last) := by
  obtain ⟨grows, same⟩ := grows_run_of_error failed
  refine ⟨⟨same, fun place entry isRecord isFile => ⟨fun stands => ?_, fun stands => ?_⟩⟩, ?_, ?_⟩
  · exact grows.file_stood stands isFile (placed.record place isRecord)
  · exact grows.file_kept stands isFile (placed.record place isRecord)
  · exact eq_of_error_at_document tree placed failed
  · rintro rfl direct past later last failing
    exact ne_fresh_of_failing tree placed direct past failed failing

-----------------------------------------------------------------------------------------
-- Bindings that cannot be written
-----------------------------------------------------------------------------------------

/-- A file that may be read only, of an old time. -/
def lockedFile (text : String) : Entry :=
  ⟨.file (.text text.toList), 7, ⟨true, false, false⟩⟩

/-- A project whose bindings cannot be written, where a document has changed since the last record. -/
def lockedProject : Workspace :=
  { plainProject with
    disk := plainProject.disk.put [['b']] (lockedFile "")
    provenance := .memory (some (SortedMap.empty.insert "a.feature".toList 4)) 1 }

/-- Witness: the catalogue is written and the bindings are not, and however often that is repeated the
project is not taken for up to date.
-/
theorem failure_keeps_record_and_shows_locked_project
    : (Command.left (run plainFiles false lockedProject)).provenance = lockedProject.provenance
      ∧ (Command.left (run plainFiles false lockedProject)).disk.clock ≠ lockedProject.disk.clock
      ∧ ∀ later last, Failing plainFiles lockedProject later →
        run plainFiles false later ≠ .ok .fresh last := by
  have tree : lockedProject.disk.IsTree := by decide +kernel
  have direct : IsDirect plainFiles lockedProject :=
    ⟨by decide +kernel, by decide +kernel, by decide +kernel, fun path known => by
      simp [lockedProject, Store.file?] at known⟩
  have fails : Command.succeeds (run plainFiles false lockedProject) = false := by decide +kernel
  have wrote : (Command.left (run plainFiles false lockedProject)).disk.clock
      ≠ lockedProject.disk.clock := by
    decide +kernel
  obtain ⟨error, failed⟩ := Command.eq_error_of_succeeds fails
  have past : ∀ record, lockedProject.provenance.loadUsable lockedProject.disk = some record →
      IsPast record lockedProject.disk.clock := by
    intro record loads key time known moment after same
    obtain rfl : SortedMap.empty.insert "a.feature".toList 4 = record := Option.some.inj loads
    rw [SortedMap.find?_insert, SortedMap.find?_empty] at known
    split at known
    · have late : (100 : Int) < moment := after
      have top : twoTo 64 - 1 = 18446744073709551615 := by decide
      unfold Disk.recorded at same
      rw [top] at same
      obtain rfl := Option.some.inj known
      omega
    · simp at known
  obtain ⟨⟨same, -⟩, -, shows⟩ := failure_keeps_record_and_shows tree (placed_plainFiles rfl rfl) failed
  exact ⟨same, wrote, shows rfl direct past⟩

/-- The files of a project whose bindings are reached through a directory of their own. -/
def upwardFiles : StepGroupFiles := ⟨.of "g", .of "c", .of "q", .of "p/../s"⟩

/-- A project without documents, whose artifacts have the times on record. The directory that the bindings
are reached through is missing, and they cannot be written.
-/
def upwardProject : Workspace where
  disk := {
    entries := ⟨[([], plainDirectory), ([['c']], lockedFile "{}\n"),
      ([['s']], lockedFile (String.ofList (Bindings.file SortedMap.empty)))], by decide⟩
    current := []
    clock := 100
    canOpen := true }
  provenance := .memory (some (Provenance.setArtifacts SortedMap.empty (some 7) (some 7))) 1
  metadata := .memory none 0

/-- Counterexample: the first refresh does not find the bindings, makes the directory that leads to them and
then fails to write them. The next one finds them with the time on record and takes the project for up to
date.
-/
theorem fresh_after_failure_upward
    : Command.succeeds (run upwardFiles false upwardProject) = false
      ∧ Command.value? (run upwardFiles false (Command.left (run upwardFiles false upwardProject)))
        = some .fresh := by
  decide +kernel

end FeaturePress.Refresh
