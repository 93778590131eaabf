import FeaturePress.Disk.Basic

/-! The feature files at or below a path, depth first with the names of each directory in order.
Excluded paths are skipped with all that they hold, and a directory that cannot be listed is an
error.
-/

namespace FeaturePress.Disk

/-- The extension of feature files. -/
def featureExtension : Text := "feature".toList

/-- Something met on a walk: its path, its place and what stands there. -/
structure Visit where
  path : Path
  place : Location
  entry : Entry

/-- The names that lead from one place to another at or below it. -/
def namesBelow? (place other : Location) : Option (List Text) :=
  Sequence.after? place other

/-- The paths from a root along some names, the root first. -/
def pathsAlong (root : Path) : List Text → List Path
  | [] => [root]
  | name :: names => root :: pathsAlong (root.join ⟨name⟩) names

/-- Whether two paths are equal by spelling, single dots aside. -/
def isSamePath (left right : Path) : Bool :=
  left.normalComponents = right.normalComponents

/-- What is met under some names below a root, unless a path on the way to it is excluded. -/
def visit? (excluded : List Path) (root : Path) (names : List Text) (place : Location)
    (entry : Entry)
    : Option Visit :=
  let paths := pathsAlong root names
  if paths.any fun path => excluded.any (isSamePath path) then none
  else some ⟨paths.getLast?.getD root, place, entry⟩

/-- All that is met at or below a root, directories before what they hold. -/
def visits (disk : Disk) (excluded : List Path) (root : Path) (start : Location)
    : List Visit :=
  disk.entries.toList.filterMap fun (place, entry) =>
    (namesBelow? start place).bind fun names => visit? excluded root names place entry

/-- Why a directory cannot be listed, if it cannot. -/
def listingRefusal? (disk : Disk) (start : Location) (visit : Visit) : Option Refusal :=
  if !visit.entry.isDirectory then none
  else if !disk.canOpen then some .tooManyOpen
  else if visit.place ≠ start &&
      !(disk.entry? visit.place.dropLast).any (·.access.passable) then
    some .permissionDenied
  else if !visit.entry.access.readable then some .permissionDenied
  else none

/-- The paths of the feature files at or below a root. A missing root holds none. -/
def featureFiles (disk : Disk) (root : Path) (excluded : List Path)
    : Except FileError (List Path) :=
  match disk.resolve root with
  | .error _ => .ok []
  | .ok start =>
    let met := disk.visits excluded root start
    let unlistable := met.findSome? fun visit =>
      (disk.listingRefusal? start visit).map fun refusal =>
        FileError.unlistable root visit.path refusal
    match unlistable with
    | some error => .error error
    | none =>
      .ok ((met.filter fun visit =>
        !visit.entry.isDirectory && visit.path.extension? = some featureExtension).map
          Visit.path)

end FeaturePress.Disk
