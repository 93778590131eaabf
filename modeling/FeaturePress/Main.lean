import FeaturePress.Disk.FeatureFiles
import FeaturePress.Examples.Variables
import FeaturePress.Project.Run

/-! The program. It reads the tree below the directory that it is started in and the configuration
files elsewhere, runs the command line on what it has read, and makes the same changes on the
disk. The system gives the files that are written times of its own, so step groups are refreshed
once more afterwards: nothing but the record of times changes then.
-/

namespace FeaturePress.Program

-----------------------------------------------------------------------------------------
-- Reading
-----------------------------------------------------------------------------------------

/-- The path of a place from the root. -/
def pathOf (place : Location) : String :=
  "/" ++ "/".intercalate (place.map String.ofList)

/-- The place of a path from the root. -/
def placeOf (path : String) : Location :=
  ((path.splitOn "/").filter (· ≠ "")).map String.toList

/-- The content of the bytes of a file. -/
def contentOf (bytes : ByteArray) : Content :=
  match String.fromUTF8? bytes with
  | some text => .text text.toList
  | none => .raw bytes.toList

/-- A time in milliseconds. -/
def milliseconds (time : IO.FS.SystemTime) : Int :=
  time.sec * 1000 + (time.nsec.toNat / 1000000 : Nat)

/-- The present time: that of a file that is made now. -/
def now : IO Int := do
  let (_, path) ← IO.FS.createTempFile
  let metadata ← path.metadata
  IO.FS.removeFile path
  return milliseconds metadata.modified

/-- Everything may be done; what the system refuses fails when it is tried. -/
def allowed : Access := ⟨true, true, true⟩

/-- Nothing may be done. -/
def refused : Access := ⟨false, false, false⟩

/-- What a file is; one that cannot be read is kept without its content. -/
def readFile (path : String) (time : Int) : IO Entry := do
  try
    return ⟨.file (contentOf (← IO.FS.readBinFile path)), time, allowed⟩
  catch _ =>
    return ⟨.file (.raw []), time, refused⟩

/-- The disk with what stands at a place and below it. -/
partial def readTree (place : Location) (disk : Disk) : IO Disk := do
  let path := System.mkFilePath [pathOf place]
  let metadata ← path.metadata
  let time := milliseconds metadata.modified
  match metadata.type with
  | .dir =>
    try
      let listing ← path.readDir
      let start := disk.put place ⟨.directory, time, allowed⟩
      listing.foldlM (fun disk child => readTree (place ++ [child.fileName.toList]) disk) start
    catch _ =>
      return disk.put place ⟨.directory, time, refused⟩
  | .file => return disk.put place (← readFile (pathOf place) time)
  | _ => return disk

/-- The disk with the directories on the way to a place. -/
def withParents (time : Int) (disk : Disk) : Location → Disk
  | [] => disk.put [] ⟨.directory, time, allowed⟩
  | place => (List.range place.length).foldl
      (fun disk count =>
        if (disk.entry? (place.take count)).isSome then disk
        else disk.put (place.take count) ⟨.directory, time, allowed⟩) disk

/-- The disk with a file that may be missing or be there already. -/
def withFile (disk : Disk) (path : Path) : IO Disk := do
  let written := String.ofList path.spelling
  let place := if path.isAbsolute then placeOf written
    else disk.current ++ placeOf written
  if (disk.entry? place).isSome || !(← (System.mkFilePath [pathOf place]).pathExists) then
    return disk
  else
    return (withParents disk.clock disk place).put place
      (← readFile (pathOf place) disk.clock)

/-- The disk that is below a directory. -/
def readDisk (here : Location) : IO Disk := do
  let time ← now
  let nothing : Disk := ⟨SortedMap.empty, here, time, true⟩
  readTree here (withParents time nothing here)

/-- The variables that feature files ask for. -/
def askedFor (disk : Disk) : List Text :=
  disk.entries.toList.flatMap fun (_, entry) =>
    match entry.content? with
    | some (.text text) => Variables.keys text
    | _ => []

/-- The values of the variables of some names that are set. -/
def readVariables (names : List Text) : IO (List (Text × Text)) := do
  let found ← names.mapM fun name => do
    return (← IO.getEnv (String.ofList name)).map fun value => (name, value.toList)
  return found.filterMap id

-----------------------------------------------------------------------------------------
-- Writing
-----------------------------------------------------------------------------------------

/-- Whether what stood at a place has to be removed: it is gone, or something else is there. -/
def isGone (after : Disk) (place : Location) (entry : Entry) : Bool :=
  (after.entry? place).all fun other => other.isDirectory ≠ entry.isDirectory

/-- Removes what was at places where it is no longer, the deepest place first. -/
def removeGone (before after : Disk) : IO Unit :=
  (before.entries.toList.filter fun (place, entry) => isGone after place entry).reverse.forM
    fun (place, entry) =>
      if entry.isDirectory then IO.FS.removeDir (pathOf place)
      else IO.FS.removeFile (pathOf place)

/-- Writes what is new at a place. -/
def writeNew (before : Disk) (place : Location) (entry : Entry) : IO Unit :=
  match entry.kind with
  | .directory => do
    if !(before.entry? place).any Entry.isDirectory then IO.FS.createDirAll (pathOf place)
  | .file content => do
    if before.entry? place ≠ some entry then
      match content with
      | .text text => IO.FS.writeFile (pathOf place) (String.ofList text)
      | .raw bytes => IO.FS.writeBinFile (pathOf place) ⟨bytes.toArray⟩

/-- Makes the changes that lead from one disk to another. -/
def writeChanges (before after : Disk) : IO Unit := do
  removeGone before after
  after.entries.toList.forM fun (place, entry) => writeNew before place entry

-----------------------------------------------------------------------------------------
-- Running
-----------------------------------------------------------------------------------------

/-- The lines that are shown when a run ends. -/
def messages : Ending → List Text
  | .stopped .displayVersion => ["featprep 0.1.0".toList]
  | .stopped _ => ["Usage: featprep [OPTIONS] <build|step-groups|clean>".toList]
  | .failed error => [error.message]
  | .failedFiles files => files.map fun (path, reason) => path.spelling ++ ' ' :: reason
  | .done => []

/-- Runs arguments on the disk that is below a directory. -/
def runAt (here : String) (arguments : List Text) : IO Ending := do
  let tree ← readDisk (placeOf here)
  let names := Setting.all.map Setting.variableName ++ ConfigFile.sources.map Prod.fst
  let values ← readVariables (names ++ askedFor tree)
  let lookup (name : Text) : Option Text := (values.find? (·.1 = name)).map Prod.snd
  let named := match CommandLine.ofArguments arguments with
    | .ok commandLine => commandLine.config.toList
    | .error _ => []
  let disk ← (named ++ ConfigFile.candidates lookup ⟨here.toList⟩).foldlM withFile tree
  let (ending, after) := runArguments arguments ⟨lookup, ⟨here.toList⟩⟩ disk
  writeChanges disk after
  return ending

/-- The arguments that refresh step groups as a command line does, if it does. -/
def settling (arguments : List Text) : Option (List Text) :=
  match CommandLine.ofArguments arguments with
  | .ok commandLine =>
    if commandLine.action = .clean then none
    else
      let option (name : String) (path : Option Path) :=
        (path.map fun path => name.toList ++ '=' :: path.spelling).toList
      some (option "--config" commandLine.config
        ++ option "--features-dir" commandLine.featuresDirectory
        ++ option "--output-dir" commandLine.outputDirectory ++ ["step-groups".toList])
  | .error _ => none

/-- Runs the program: its status. -/
def run (arguments : List String) : IO UInt32 := do
  let here := toString (← IO.currentDir)
  let words := arguments.map String.toList
  let ending ← runAt here words
  match ending, settling words with
  | .failed _, _ => pure ()
  | _, some refresh => discard (runAt here refresh)
  | _, none => pure ()
  (messages ending).forM fun line => IO.eprintln (String.ofList line)
  return ending.status.toUInt32

end FeaturePress.Program

/-- Runs the program on its arguments. -/
def main (arguments : List String) : IO UInt32 :=
  FeaturePress.Program.run arguments
