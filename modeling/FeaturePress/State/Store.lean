import FeaturePress.State.Document

/-! Stores of one value: a document on the disk, or a value in memory that counts how often it was
saved.
-/

namespace FeaturePress

/-- A store of one value. -/
inductive Store (α : Type) where
  | file (path : Path)
  | memory (value : Option α) (saves : Nat)
  /-- A store in memory whose value never loads. -/
  | corrupted (saves : Nat)

namespace Store

variable {α : Type}

/-- How often a store in memory was saved. -/
def saves? : Store α → Option Nat
  | .file _ => none
  | .memory _ saves | .corrupted saves => some saves

/-- The value of a store, if it has one. -/
def load [Storable α] (store : Store α) (disk : Disk) : Except DocumentError (Option α) :=
  match store with
  | .file path => Document.load disk path
  | .memory value _ => .ok value
  | .corrupted _ => .error .simulated

/-- The value of a store, where one that does not load counts as missing. -/
def loadUsable [Storable α] (store : Store α) (disk : Disk) : Option α :=
  match store.load disk with
  | .ok value => value
  | .error _ => none

/-- Replaces the value of a store: the disk and the store afterwards. -/
def save [Storable α] (store : Store α) (disk : Disk) (value : α)
    : Except DocumentError Unit × Disk × Store α :=
  match store with
  | .file path =>
    match Document.save disk path value with
    | (outcome, written) => (outcome, written, .file path)
  | .memory _ saves => (.ok (), disk, .memory (some value) (saves + 1))
  | .corrupted saves => (.ok (), disk, .corrupted (saves + 1))

end Store

end FeaturePress
