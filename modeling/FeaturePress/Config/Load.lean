import FeaturePress.CommandLine
import FeaturePress.Config.Environment
import FeaturePress.Config.File

/-! The configuration of a command: the defaults, the configuration file, the variables of the
environment and the options of the command line, each laid over the one before.
-/

namespace FeaturePress.CommandLine

/-- A member for an option that is given. -/
def optionMember (name : String) (path : Option Path) : List (Text × Json) :=
  match path with
  | some path => [(name.toList, .text path.spelling)]
  | none => []

/-- The layer of a command line: its directories, and a cache that is switched off. -/
def layer (commandLine : CommandLine) : Json :=
  let cache :=
    match commandLine.action with
    | .build _ true => [("feature_cache".toList, .object [("enabled".toList, .bool false)])]
    | _ => []
  .object (optionMember "features_dir" commandLine.featuresDirectory
    ++ optionMember "output_dir" commandLine.outputDirectory ++ cache)

/-- Loads the configuration of a command line that is run at a directory, where `lookup` gives the
variables of the environment.
-/
def loadConfig (commandLine : CommandLine) (disk : Disk) (lookup : Text → Option Text)
    (here : Path)
    : Except ConfigError Config :=
  match ConfigFile.layer disk commandLine.config (ConfigFile.candidates lookup here) with
  | .error error => .error error
  | .ok file =>
    match Setting.layer lookup Setting.all with
    | .error error => .error error
    | .ok environment =>
      Config.ofLayers [Config.default.toJson, file, environment, commandLine.layer]

end FeaturePress.CommandLine
