import FeaturePress.Disk.Read
import FeaturePress.Text.Digest

/-! Writing to a disk. Missing directories on the way are created first and stay when the file
itself cannot be written. Every change takes a new time.
-/

namespace FeaturePress.Disk

/-- The rights of a new file. -/
def fileAccess : Access := ⟨true, true, false⟩

/-- The rights of a new directory. -/
def directoryAccess : Access := ⟨true, true, true⟩

/-- The disk with something new in a directory at the next moment. -/
def add (disk : Disk) (directory : Location) (name : Text) (kind : Kind) (access : Access)
    : Disk :=
  let later := disk.tick
  (later.put (directory ++ [name]) ⟨kind, later.clock, access⟩).stamp directory

/-- Creates the directory of a path whose parent exists. -/
def createDirectory (disk : Disk) (path : Path) : Except Obstacle Disk :=
  if path.spelling.isEmpty then .error .missing
  else if path.spelling.contains '\x00' then .error (.refused .nulInPath)
  else
    let (start, pieces) := disk.route path
    match pieces.reverse.dropWhile List.isEmpty with
    | [] => .error (.refused .alreadyExists)
    | last :: earlier =>
      match earlier.reverse.foldlM disk.step start with
      | .error obstacle => .error obstacle
      | .ok place =>
        match Component.ofPiece last with
        | .name name =>
          match disk.lookup place name with
          | .error obstacle => .error obstacle
          | .ok (_, some _) => .error (.refused .alreadyExists)
          | .ok (directory, none) =>
            if directory.access.writable then
              .ok (disk.add place name .directory directoryAccess)
            else .error (.refused .permissionDenied)
        | _ =>
          match disk.enter place with
          | .error obstacle => .error obstacle
          | .ok _ => .error (.refused .alreadyExists)

/-- Creates the directory of a path unless there is one. -/
def ensureDirectory (disk : Disk) (path : Path) : Except Obstacle Disk :=
  match disk.createDirectory path with
  | .ok created => .ok created
  | .error obstacle =>
    if obstacle = .refused .alreadyExists && disk.isDirectory path then .ok disk
    else .error obstacle

/-- Creates the first directory of a list, and when its parent is missing those after it first. -/
def ensureChain (disk : Disk) : List Path → Except Obstacle Unit × Disk
  | [] => (.ok (), disk)
  | path :: ancestors =>
    match disk.ensureDirectory path with
    | .ok created => (.ok (), created)
    | .error (.refused refusal) => (.error (.refused refusal), disk)
    | .error .missing =>
      match disk.ensureChain ancestors with
      | (.error obstacle, below) => (.error obstacle, below)
      | (.ok (), below) =>
        match below.ensureDirectory path with
        | .ok created => (.ok (), created)
        | .error obstacle => (.error obstacle, below)

/-- Creates a directory with all its parents. -/
def createDirectories (disk : Disk) (path : Path) : Except FileError Unit × Disk :=
  match disk.ensureChain path.ancestors with
  | (.ok (), created) => (.ok (), created)
  | (.error obstacle, created) => (.error (obstacle.at path), created)

/-- Writes a file into a directory that exists. -/
def writeHere (disk : Disk) (path : Path) (content : Content) : Except FileError Disk :=
  match disk.openDirectory path with
  | .error error => .error error
  | .ok (place, name) =>
    match disk.lookup place name with
    | .error obstacle => .error (obstacle.at path)
    | .ok (directory, none) =>
      if directory.access.writable then .ok (disk.add place name (.file content) fileAccess)
      else .error (.refused path .permissionDenied)
    | .ok (_, some entry) =>
      if entry.isDirectory then .error (.refused path .isADirectory)
      else if !entry.access.writable then .error (.refused path .permissionDenied)
      else
        let later := disk.tick
        .ok (later.put (place ++ [name]) ⟨.file content, later.clock, entry.access⟩)

/-- Creates the parents of a path, if it has any. -/
def createParents (disk : Disk) (path : Path) : Except FileError Unit × Disk :=
  match path.parent? with
  | none => (.ok (), disk)
  | some parent => disk.createDirectories parent

/-- Writes a file and the directories on the way to it. -/
def write (disk : Disk) (path : Path) (content : Content) : Except FileError Unit × Disk :=
  match disk.createParents path with
  | (.error error, created) => (.error error, created)
  | (.ok (), created) =>
    match created.writeHere path content with
    | .ok written => (.ok (), written)
    | .error error => (.error error, created)

/-- Writes a file unless it already holds a text of the same digest; tells whether it wrote. So
the time of the last change tells when the content became what it is.
-/
def writeIfChanged (disk : Disk) (path : Path) (text : Text) : Except FileError Bool × Disk :=
  match disk.readOptional path with
  | .error error => (.error error, disk)
  | .ok existing =>
    if existing.any fun old => Text.digest old = Text.digest text then (.ok false, disk)
    else
      match disk.write path (.text text) with
      | (.ok (), written) => (.ok true, written)
      | (.error error, written) => (.error error, written)

/-- Writes the text of one file into another. -/
def copy (disk : Disk) (source target : Path) : Except FileError Unit × Disk :=
  match disk.read source with
  | .error error => (.error error, disk)
  | .ok content => disk.write target (.text content)

end FeaturePress.Disk
