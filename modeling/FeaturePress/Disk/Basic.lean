import FeaturePress.Disk.FileError
import FeaturePress.SortedMap

/-! A disk: files and directories at places, with modification times and access rights, and the
way from a path to the place that it names. Every step of the way, those that stay or go up
included, needs a directory that may be passed.
-/

namespace FeaturePress

/-- A place on a disk: the names on the way from the root. -/
abbrev Location := List Text

/-- What may be done with a file or directory. -/
structure Access where
  readable : Bool
  writable : Bool
  passable : Bool
deriving DecidableEq

/-- The bytes of a file, as text whenever they are UTF-8. -/
inductive Content where
  | text (value : Text)
  | raw (bytes : List UInt8)
deriving DecidableEq

/-- What stands at a place. -/
inductive Kind where
  | file (content : Content)
  | directory
deriving DecidableEq

/-- What a disk keeps for a place; times are milliseconds from 1970 on. -/
structure Entry where
  kind : Kind
  modified : Int
  access : Access
deriving DecidableEq

namespace Entry

/-- Whether an entry is a directory. -/
def isDirectory (entry : Entry) : Bool :=
  entry.kind = .directory

/-- The content of a file. -/
def content? (entry : Entry) : Option Content :=
  match entry.kind with
  | .file content => some content
  | .directory => none

/-- The text of a file that may be read. -/
def text (entry : Entry) : Except Fault Text :=
  if !entry.access.readable then .error (.blocked (.refused .permissionDenied))
  else
    match entry.kind with
    | .directory => .error (.blocked (.refused .isADirectory))
    | .file (.raw _) => .error .notUtf8
    | .file (.text content) => .ok content

end Entry

/-- Files and directories, where relative paths start, the time of the last change or reading of
the clock, and whether anything can be opened.
-/
structure Disk where
  entries : SortedMap Location Entry
  current : Location
  clock : Int
  canOpen : Bool

namespace Disk

/-- What stands at a place. -/
def entry? (disk : Disk) (place : Location) : Option Entry :=
  disk.entries.find? place

/-- The greatest number of bytes in a name. -/
def greatestName : Nat := 255

/-- Whether a name has too many bytes. -/
def isTooLong (name : Text) : Bool :=
  greatestName < name.foldl (fun size c => size + c.utf8Size) 0

/-- What stands at a place that must be a directory. -/
def directory (disk : Disk) (place : Location) : Except Obstacle Entry :=
  match disk.entry? place with
  | none => .error .missing
  | some entry => if entry.isDirectory then .ok entry else .error (.refused .notADirectory)

/-- What stands at a place that must be a directory one may pass. -/
def enter (disk : Disk) (place : Location) : Except Obstacle Entry :=
  match disk.directory place with
  | .error obstacle => .error obstacle
  | .ok entry =>
    if entry.access.passable then .ok entry else .error (.refused .permissionDenied)

/-- A directory one may pass, and what stands in it under a name. -/
def lookup (disk : Disk) (place : Location) (name : Text)
    : Except Obstacle (Entry × Option Entry) :=
  match disk.enter place with
  | .error obstacle => .error obstacle
  | .ok directory =>
    if isTooLong name then .error (.refused .nameTooLong)
    else .ok (directory, disk.entry? (place ++ [name]))

/-- The place that a piece of a path leads to. An empty piece stays in a directory. -/
def step (disk : Disk) (place : Location) (piece : Text) : Except Obstacle Location :=
  if piece.isEmpty then (disk.directory place).map fun _ => place
  else
    match Component.ofPiece piece with
    | .name name =>
      match disk.lookup place name with
      | .error obstacle => .error obstacle
      | .ok (_, none) => .error .missing
      | .ok (_, some _) => .ok (place ++ [name])
    | .up => (disk.enter place).map fun _ => place.dropLast
    | _ => (disk.enter place).map fun _ => place

/-- Where a path starts and the pieces that lead on from there. -/
def route (disk : Disk) (path : Path) : Location × List Text :=
  let pieces := path.spelling.splitOn '/'
  if path.isAbsolute then ([], pieces.tail) else (disk.current, pieces)

/-- The place that a path leads to, if something stands there. -/
def resolve (disk : Disk) (path : Path) : Except Obstacle Location :=
  if path.spelling.isEmpty then .error .missing
  else if path.spelling.contains '\x00' then .error (.refused .nulInPath)
  else
    let (start, pieces) := disk.route path
    pieces.foldlM disk.step start

/-- Whether a path leads to a file or directory. -/
def holds (disk : Disk) (path : Path) : Bool :=
  (disk.resolve path).isOk

/-- Whether a path leads to a directory. -/
def isDirectory (disk : Disk) (path : Path) : Bool :=
  match disk.resolve path with
  | .ok place => (disk.directory place).isOk
  | .error _ => false

/-- The opened directory of a path, and the name that the path has in it. -/
def openDirectory (disk : Disk) (path : Path) : Except FileError (Location × Text) :=
  match path.fileName? with
  | none => .error (.noFileName path)
  | some name =>
    if path.directory.spelling.contains '\x00' then .error (.refused path .nulInPath)
    else if !disk.canOpen then .error (.refused path .tooManyOpen)
    else
      match disk.resolve path.directory with
      | .error obstacle => .error (obstacle.at path)
      | .ok place =>
        match disk.directory place with
        | .error obstacle => .error (obstacle.at path)
        | .ok _ =>
          if name.contains '\x00' then .error (.refused path .invalidName)
          else .ok (place, name)

/-- The disk with something at a place. -/
def put (disk : Disk) (place : Location) (entry : Entry) : Disk :=
  { disk with entries := disk.entries.insert place entry }

/-- The disk without what stands at a place. -/
def drop (disk : Disk) (place : Location) : Disk :=
  { disk with entries := disk.entries.erase place }

/-- The disk with the clock advanced. -/
def tick (disk : Disk) : Disk :=
  { disk with clock := disk.clock + 1 }

/-- The disk with the present time as that of a place's last change. -/
def stamp (disk : Disk) (place : Location) : Disk :=
  match disk.entry? place with
  | none => disk
  | some entry => disk.put place { entry with modified := disk.clock }

end Disk

end FeaturePress
