import FeaturePress.Project.Command
import FeaturePress.Proofs.State.Saving

/-! The steps of commands taken apart: a command that succeeds has come through each of its steps, and
whatever holds between the workspaces before and after every step holds for the whole command, also
when it fails.
-/

namespace FeaturePress

/-- An error of the disk: an operation on files or on a document has failed. -/
def CommandError.IsOfDisk : CommandError → Prop
  | .file _ | .document _ => True
  | .config _ | .stepGroup _ => False

namespace Command

variable {α β : Type}

-----------------------------------------------------------------------------------------
-- Commands that succeed
-----------------------------------------------------------------------------------------

/-- The steps of a sequence that succeeds succeed one after the other. -/
theorem bind_eq_ok {first : Command α} {next : α → Command β} {before after : Workspace} {value : β}
    (ok : (first >>= next) before = .ok value after)
    : ∃ result between, first before = .ok result between ∧ next result between = .ok value after := by
  change EStateM.bind first next before = _ at ok
  unfold EStateM.bind at ok
  split at ok
  · next result between done => exact ⟨result, between, done, ok⟩
  · simp at ok

theorem pure_eq_ok {result value : α} {before after : Workspace}
    (ok : (pure result : Command α) before = .ok value after)
    : result = value ∧ before = after := by
  change EStateM.Result.ok result before = _ at ok
  simpa using ok

theorem get_eq (workspace : Workspace) : (get : Command Workspace) workspace = .ok workspace workspace :=
  rfl

theorem get_eq_ok {value before after : Workspace}
    (ok : (get : Command Workspace) before = .ok value after)
    : value = before ∧ after = before := by
  change EStateM.Result.ok before before = _ at ok
  simp only [EStateM.Result.ok.injEq] at ok
  exact ⟨ok.1.symm, ok.2.symm⟩

theorem require_eq_ok {ε : Type} {outcome : Except ε α} {fail : ε → CommandError}
    {before after : Workspace} {value : α}
    (ok : require outcome fail before = .ok value after)
    : outcome = .ok value ∧ after = before := by
  unfold require at ok
  split at ok <;> simp_all

theorem look_eq_ok {question : Disk → Except FileError α} {before after : Workspace} {value : α}
    (ok : look question before = .ok value after)
    : question before.disk = .ok value ∧ after = before :=
  require_eq_ok ok

theorem change_eq_ok {edit : Disk → Except FileError α × Disk} {before after : Workspace} {value : α}
    (ok : change edit before = .ok value after)
    : edit before.disk = (.ok value, after.disk) ∧ after = { before with disk := after.disk } := by
  unfold change at ok
  split at ok
  · next result disk edited =>
      simp only [EStateM.Result.ok.injEq] at ok
      obtain ⟨rfl, rfl⟩ := ok
      exact ⟨edited, rfl⟩
  · simp at ok

theorem saveProvenance_eq_ok {record : Provenance} {before after : Workspace} {value : Unit}
    (ok : saveProvenance record before = .ok value after)
    : before.provenance.save before.disk record = (.ok (), after.disk, after.provenance)
      ∧ after.metadata = before.metadata := by
  unfold saveProvenance at ok
  split at ok
  · next disk provenance saved =>
      simp only [EStateM.Result.ok.injEq, true_and] at ok
      subst ok
      exact ⟨saved, rfl⟩
  · simp at ok

-----------------------------------------------------------------------------------------
-- Commands that fail
-----------------------------------------------------------------------------------------

/-- A sequence that fails does so at one of its steps. -/
theorem bind_eq_error {first : Command α} {next : α → Command β} {before after : Workspace}
    {error : CommandError} (failed : (first >>= next) before = .error error after)
    : first before = .error error after
      ∨ ∃ result between, first before = .ok result between
          ∧ next result between = .error error after := by
  change EStateM.bind first next before = _ at failed
  unfold EStateM.bind at failed
  cases ran : first before with
  | ok result between =>
      rw [ran] at failed
      exact Or.inr ⟨result, between, rfl, failed⟩
  | error other between =>
      rw [ran] at failed
      obtain ⟨rfl, rfl⟩ : other = error ∧ between = after := by simpa using failed
      exact Or.inl rfl

theorem require_eq_error {ε : Type} {outcome : Except ε α} {fail : ε → CommandError}
    {before after : Workspace} {error : CommandError}
    (failed : require outcome fail before = .error error after)
    : after = before ∧ ∃ cause, outcome = .error cause ∧ error = fail cause := by
  unfold require at failed
  split at failed
  · simp at failed
  · next cause =>
      obtain ⟨rfl, rfl⟩ : fail cause = error ∧ before = after := by simpa using failed
      exact ⟨rfl, cause, rfl, rfl⟩

theorem look_eq_error {question : Disk → Except FileError α} {before after : Workspace}
    {error : CommandError} (failed : look question before = .error error after)
    : after = before ∧ ∃ cause, question before.disk = .error cause ∧ error = .file cause :=
  require_eq_error failed

theorem change_eq_error {edit : Disk → Except FileError α × Disk} {before after : Workspace}
    {error : CommandError} (failed : change edit before = .error error after)
    : ∃ cause disk, edit before.disk = (.error cause, disk) ∧ error = .file cause
        ∧ after = { before with disk } := by
  unfold change at failed
  split at failed
  · simp at failed
  · next cause disk edited =>
      obtain ⟨rfl, rfl⟩ : .file cause = error ∧ { before with disk } = after := by simpa using failed
      exact ⟨cause, disk, edited, rfl, rfl⟩

theorem saveProvenance_eq_error {record : Provenance} {before after : Workspace} {error : CommandError}
    (failed : saveProvenance record before = .error error after)
    : ∃ cause disk provenance, before.provenance.save before.disk record
          = (.error cause, disk, provenance)
        ∧ error = .document cause ∧ after = { before with disk, provenance } := by
  unfold saveProvenance at failed
  split at failed
  · simp at failed
  · next cause disk provenance saved =>
      obtain ⟨rfl, rfl⟩ : .document cause = error ∧ { before with disk, provenance } = after := by
        simpa using failed
      exact ⟨cause, disk, provenance, saved, rfl, rfl⟩

/-- A command that fails for no error of the disk. -/
def Unhindered (result : EStateM.Result CommandError Workspace α) : Prop :=
  ∀ error left, result = .error error left → ¬ error.IsOfDisk

-----------------------------------------------------------------------------------------
-- Commands that may fail
-----------------------------------------------------------------------------------------

/-- The workspace that a run leaves, whether it succeeds or fails. -/
def left : EStateM.Result CommandError Workspace α → Workspace
  | .ok _ workspace => workspace
  | .error _ workspace => workspace

@[simp]
theorem left_ok (value : α) (workspace : Workspace)
    : left (.ok value workspace : EStateM.Result CommandError Workspace α) = workspace := rfl

@[simp]
theorem left_error (error : CommandError) (workspace : Workspace)
    : left (.error error workspace : EStateM.Result CommandError Workspace α) = workspace := rfl

/-- Whether a run succeeds. -/
def succeeds : EStateM.Result CommandError Workspace α → Bool
  | .ok .. => true
  | .error .. => false

theorem eq_ok_of_succeeds {result : EStateM.Result CommandError Workspace α}
    (done : succeeds result = true)
    : ∃ value, result = .ok value (left result) := by
  cases result with
  | ok value workspace => exact ⟨value, rfl⟩
  | error error workspace => simp [succeeds] at done

theorem eq_error_of_succeeds {result : EStateM.Result CommandError Workspace α}
    (fails : succeeds result = false)
    : ∃ error, result = .error error (left result) := by
  cases result with
  | ok value workspace => simp [succeeds] at fails
  | error error workspace => exact ⟨error, rfl⟩

/-- The value of a run that succeeds. -/
def value? : EStateM.Result CommandError Workspace α → Option α
  | .ok value _ => some value
  | .error .. => none

theorem eq_ok_of_value? {result : EStateM.Result CommandError Workspace α} {value : α}
    (found : value? result = some value)
    : result = .ok value (left result) := by
  cases result with
  | ok other workspace =>
      obtain rfl : other = value := by simpa [value?] using found
      rfl
  | error error workspace => simp [value?] at found

theorem unhindered_of_value? {result : EStateM.Result CommandError Workspace α} {value : α}
    (found : value? result = some value)
    : Unhindered result :=
  fun error workspace failed => by simp [failed, value?] at found

@[simp]
theorem left_pure (value : α) (before : Workspace) : left ((pure value : Command α) before) = before :=
  rfl

@[simp]
theorem left_require {ε : Type} (outcome : Except ε α) (fail : ε → CommandError) (before : Workspace)
    : left (require outcome fail before) = before := by
  unfold require
  split <;> rfl

@[simp]
theorem left_look (question : Disk → Except FileError α) (before : Workspace)
    : left (look question before) = before :=
  left_require ..

@[simp]
theorem left_change (edit : Disk → Except FileError α × Disk) (before : Workspace)
    : left (change edit before) = { before with disk := (edit before.disk).2 } := by
  unfold change
  split <;> simp_all

-----------------------------------------------------------------------------------------
-- Commands within a territory
-----------------------------------------------------------------------------------------

/-- A change of a workspace within a territory, which keeps the documents of both stores where they
are.
-/
structure Confined (territory : Disk.Territory) (before after : Workspace) : Prop where
  frame : Disk.Frame territory before.disk after.disk
  provenance : after.provenance.file? = before.provenance.file?
  metadata : after.metadata.file? = before.metadata.file?

namespace Confined

variable {territory : Disk.Territory} {before between after : Workspace}

theorem refl (territory : Disk.Territory) (workspace : Workspace)
    : Confined territory workspace workspace :=
  ⟨Disk.Frame.refl _ _, rfl, rfl⟩

theorem trans (first : Confined territory before between) (second : Confined territory between after)
    : Confined territory before after :=
  ⟨first.frame.trans second.frame, second.provenance.trans first.provenance,
    second.metadata.trans first.metadata⟩

theorem mono {larger : Disk.Territory} (confined : Confined territory before after)
    (within : territory.Within larger)
    : Confined larger before after :=
  ⟨confined.frame.mono within, confined.provenance, confined.metadata⟩

/-- A change of the disk alone. -/
theorem ofFrame {disk : Disk} (frame : Disk.Frame territory before.disk disk)
    : Confined territory before { before with disk } :=
  ⟨frame, rfl, rfl⟩

/-- What holds of the workspace that a run leaves holds when it succeeds. -/
theorem ofOk {result : EStateM.Result CommandError Workspace α} {value : α}
    (confined : Confined territory before (left result)) (ok : result = .ok value after)
    : Confined territory before after := by
  rw [ok] at confined
  exact confined

end Confined

/-- A territory that depends on where relative paths start and on the documents of the stores only. -/
def Stable (territory : Workspace → Disk.Territory) : Prop :=
  ∀ bounds before after, Confined bounds before after → territory after = territory before

/-- A sequence stays within a territory when both of its parts do. -/
theorem Confined.bind {territory : Workspace → Disk.Territory} (stable : Stable territory)
    {first : Command α} {next : α → Command β} {before : Workspace}
    (firstPart : Confined (territory before) before (left (first before)))
    (nextPart : ∀ value between, first before = .ok value between →
      Confined (territory between) between (left (next value between)))
    : Confined (territory before) before (left ((first >>= next) before)) := by
  change Confined _ before (left (EStateM.bind first next before))
  unfold EStateM.bind
  cases hfirst : first before with
  | ok value between =>
      rw [hfirst, left_ok] at firstPart
      have second := nextPart value between hfirst
      rw [stable _ _ _ firstPart] at second
      exact firstPart.trans second
  | error error between =>
      rw [hfirst] at firstPart
      exact firstPart

theorem confined_saveProvenance (record : Provenance) (before : Workspace)
    : Confined (before.provenance.territory before.disk.current) before
        (left (saveProvenance record before)) := by
  have frame := before.provenance.frame_save before.disk record
  have sameFile := before.provenance.file?_save before.disk record
  unfold saveProvenance
  split <;>
  · next saved =>
      rw [saved] at frame sameFile
      exact ⟨frame, sameFile, rfl⟩

end Command

end FeaturePress
