import FeaturePress.Disk.Basic
import FeaturePress.Number.Power

/-! Reading from a disk: the text of a file and the time of its last change. A missing file can be
told from one that cannot be read.
-/

namespace FeaturePress.Disk

/-- What stands at a path, reached through its opened directory. -/
def find (disk : Disk) (path : Path) : Except FileError Entry :=
  match disk.openDirectory path with
  | .error error => .error error
  | .ok (place, name) =>
    match disk.lookup place name with
    | .error obstacle => .error (obstacle.at path)
    | .ok (_, none) => .error (.notFound path)
    | .ok (_, some entry) => .ok entry

/-- The text of a file. -/
def read (disk : Disk) (path : Path) : Except FileError Text :=
  match disk.find path with
  | .error error => .error error
  | .ok entry => entry.text.mapError (Fault.at path)

/-- A result in which what is missing is no error. -/
def optional : Except FileError α → Except FileError (Option α)
  | .ok value => .ok (some value)
  | .error (.notFound _) => .ok none
  | .error error => .error error

/-- The text of a file that may be missing. -/
def readOptional (disk : Disk) (path : Path) : Except FileError (Option Text) :=
  optional (disk.read path)

/-- When a file or directory that may be missing was last changed. -/
def modified (disk : Disk) (path : Path) : Except FileError (Option Int) :=
  optional ((disk.find path).map Entry.modified)

/-- A time as records keep it, in 64 bits: times before 1970 count as zero, and times that do not fit
as the greatest number.
-/
def recorded (time : Int) : Nat :=
  min time.toNat (twoTo 64 - 1)

/-- The time of the last change as records keep it. -/
def recordedTime (disk : Disk) (path : Path) : Except FileError (Option Nat) :=
  (disk.modified path).map fun time => time.map recorded

end FeaturePress.Disk
