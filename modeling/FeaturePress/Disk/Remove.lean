import FeaturePress.Disk.Basic

/-! Removing files and directory trees. What is missing needs no removing. A tree is emptied before
it is removed itself, and stays emptied when its own directory may not be changed.
-/

namespace FeaturePress.Disk

/-- The disk without what stands at a place, at the next moment. -/
def take (disk : Disk) (place : Location) : Disk :=
  ((disk.tick).drop place).stamp place.dropLast

/-- A result in which what is missing is no error. -/
def orGone (path : Path) (obstacle : Obstacle) : Except FileError Unit :=
  match obstacle with
  | .missing => .ok ()
  | .refused refusal => .error (.refused path refusal)

/-- Whether what stands in a directory may be removed. -/
def isEditable (directory : Entry) : Bool :=
  directory.access.writable && directory.access.passable

/-- Removes the file at a path. -/
def removeHere (disk : Disk) (place : Location) (name : Text) : Except Obstacle Disk :=
  match disk.lookup place name with
  | .error obstacle => .error obstacle
  | .ok (_, none) => .error .missing
  | .ok (directory, some entry) =>
    if !isEditable directory then .error (.refused .permissionDenied)
    else if entry.isDirectory then .error (.refused .isADirectory)
    else .ok (disk.take (place ++ [name]))

/-- Removes a file that may be missing. -/
def removeFile (disk : Disk) (path : Path) : Except FileError Unit × Disk :=
  match disk.openDirectory path with
  | .error (.notFound _) => (.ok (), disk)
  | .error error => (.error error, disk)
  | .ok (place, name) =>
    match disk.removeHere place name with
    | .ok removed => (.ok (), removed)
    | .error obstacle => (orGone path obstacle, disk)

/-- The places below another one, deepest and last first, so that a directory comes after all that
it holds.
-/
def placesBelow (disk : Disk) (place : Location) : List Location :=
  (disk.entries.keys.filter fun other => place.isPrefixOf other && other ≠ place).reverse

/-- Whether a directory can be listed and what it lists can be reached. -/
def isOpen (directory : Entry) : Bool :=
  directory.access.readable && directory.access.passable

/-- Whether what stands at a place can be removed: its directory may be changed, and to empty a
directory it must be open.
-/
def isRemovable (disk : Disk) (place : Location) : Bool :=
  (disk.entry? place.dropLast).any isEditable &&
    (disk.entry? place).all fun entry => !entry.isDirectory || isOpen entry

/-- Whether every directory between the top of a tree and a place below it is open. -/
def isReached (disk : Disk) (top place : Location) : Bool :=
  (List.range place.length).all fun depth =>
    !top.isPrefixOf (place.take depth) || (disk.entry? (place.take depth)).any isOpen

/-- Removes places of a tree one by one, up to the first that cannot be reached or removed. -/
def takeAll (disk : Disk) (top : Location) : List Location → Except Obstacle Unit × Disk
  | [] => (.ok (), disk)
  | place :: rest =>
    if disk.isReached top place && disk.isRemovable place then (disk.take place).takeAll top rest
    else (.error (.refused .permissionDenied), disk)

/-- Removes the directory under a name with all that it holds. -/
def removeTreeHere (disk : Disk) (place : Location) (name : Text)
    : Except Obstacle Unit × Disk :=
  match disk.lookup place name with
  | .error obstacle => (.error obstacle, disk)
  | .ok (_, none) => (.error .missing, disk)
  | .ok (_, some entry) =>
    if !entry.isDirectory then (.error (.refused .notADirectory), disk)
    else
      let tree := place ++ [name]
      match disk.takeAll tree (disk.placesBelow tree) with
      | (.error obstacle, emptied) => (.error obstacle, emptied)
      | (.ok (), emptied) =>
        if emptied.isRemovable tree then (.ok (), emptied.take tree)
        else (.error (.refused .permissionDenied), emptied)

/-- Removes a directory tree that may be missing. -/
def removeTree (disk : Disk) (path : Path) : Except FileError Unit × Disk :=
  match disk.openDirectory path with
  | .error (.notFound _) => (.ok (), disk)
  | .error error => (.error error, disk)
  | .ok (place, name) =>
    match disk.removeTreeHere place name with
    | (.ok (), removed) => (.ok (), removed)
    | (.error obstacle, removed) => (orGone path obstacle, removed)

end FeaturePress.Disk
