import FeaturePress.Config.Basic
import FeaturePress.Disk.Basic
import FeaturePress.Toml.Document

/-! Configuration files: where one is looked for when none is named, and how it is read. A file is
read through its opened directory, and what names no file in a directory is looked for beneath it.
-/

namespace FeaturePress

namespace Disk

/-- The place that a piece of a path leads to, if it does not lead above a directory. -/
def stepBeneath (disk : Disk) (top place : Location) (piece : Text)
    : Except Obstacle Location :=
  match disk.step place piece with
  | .error obstacle => .error obstacle
  | .ok next =>
    if place = top && Component.ofPiece piece = .up then .error (.refused .outsideDirectory)
    else .ok next

/-- The place that a path leads to from a directory, without leading above it. -/
def resolveBeneath (disk : Disk) (top : Location) (path : Path) : Except Obstacle Location :=
  if path.isAbsolute then .error (.refused .outsideDirectory)
  else (path.spelling.splitOn '/').foldlM (disk.stepBeneath top) top

/-- The text of the file that a path leads to from a directory. -/
def readBeneath (disk : Disk) (top : Location) (path : Path) : Except Fault Text :=
  match disk.resolveBeneath top path with
  | .error obstacle => .error (.blocked obstacle)
  | .ok place =>
    match disk.entry? place with
    | none => .error (.blocked .missing)
    | some entry => entry.text

end Disk

namespace ConfigFile

/-- The name of a configuration file in a directory of its own. -/
def ownName : Path := .of "featprep/config.toml"

/-- The name of a configuration file among other ones. -/
def dotName : Path := .of ".featprep.toml"

/-- Both configuration files of a directory of configurations. -/
def namesIn (directory : Path) : List Path :=
  [directory.join ownName, directory.join dotName]

/-- The directories that a text lists with colons between them. -/
def listed (text : Text) : List Path :=
  ((text.splitOn ':').filter (!·.isEmpty)).map Path.mk

/-- The variables that tell where a configuration file may be, and what their values say: a path,
a directory of configurations of the user, some of the system, or the home directory.
-/
def sources : List (Text × (Text → List Path)) :=
  [("FEATPREP_CONFIG_PATH".toList, fun path => [⟨path⟩]),
   ("XDG_CONFIG_HOME".toList, fun directory => namesIn ⟨directory⟩),
   ("XDG_CONFIG_DIRS".toList, fun text => (listed text).flatMap namesIn),
   ("HOME".toList, fun home =>
     namesIn (Path.join ⟨home⟩ (.of ".config")) ++ [Path.join ⟨home⟩ dotName])]

/-- Where a configuration file may be when none is named, the first place first: where the
variables that are set say, and where the command is run.
-/
def candidates (lookup : Text → Option Text) (here : Path) : List Path :=
  (sources.flatMap fun (name, paths) => ((lookup name).map paths).getD [])
    ++ [here.join dotName]

/-- The opened directory of a configuration file. -/
def openDirectory (disk : Disk) (directory : Path) : Except Obstacle Location :=
  if !disk.canOpen then .error (.refused .tooManyOpen)
  else
    match disk.resolve directory with
    | .error obstacle => .error obstacle
    | .ok place => (disk.directory place).map fun _ => place

/-- The text of a configuration file. -/
def text (disk : Disk) (path : Path) : Except ConfigError Text :=
  match openDirectory disk path.directory with
  | .error obstacle => .error (.unopenable path.directory obstacle)
  | .ok place =>
    (disk.readBeneath place ⟨path.fileName?.getD path.spelling⟩).mapError (.unreadable path)

/-- The layer of a configuration file. -/
def read (disk : Disk) (path : Path) : Except ConfigError Json :=
  match text disk path with
  | .error error => .error error
  | .ok document =>
    match Toml.read? document with
    | some layer => .ok layer
    | none => .error (.malformedFile path)

/-- The configuration file to read: the one that is named, which must be there, or else the first
candidate that is there.
-/
def choose (disk : Disk) (named : Option Path) (candidates : List Path)
    : Except ConfigError (Option Path) :=
  match named with
  | none => .ok (candidates.find? disk.holds)
  | some path => if disk.holds path then .ok (some path) else .error (.fileNotFound path)

/-- The layer of the configuration file, empty when there is none. -/
def layer (disk : Disk) (named : Option Path) (candidates : List Path)
    : Except ConfigError Json :=
  match choose disk named candidates with
  | .error error => .error error
  | .ok none => .ok (.object [])
  | .ok (some path) => read disk path

end ConfigFile

end FeaturePress
