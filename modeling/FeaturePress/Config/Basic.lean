import FeaturePress.Disk.FileError
import FeaturePress.Json.Basic

/-! The configuration of a project: its directories and files, their defaults, and the check that
a build does not delete what it is made from.
-/

namespace FeaturePress

/-- Where step groups are declared and kept. -/
structure StepGroupFiles where
  sourceDirectory : Path
  catalog : Path
  provenance : Path
  bindings : Path
deriving DecidableEq

/-- Whether and where finished feature files are cached. -/
structure FeatureCacheFiles where
  enabled : Bool
  directory : Path
  metadata : Path
deriving DecidableEq

/-- The configuration of a project. -/
structure Config where
  featuresDirectory : Path
  outputDirectory : Path
  dataDirectory : Path
  stepGroups : StepGroupFiles
  featureCache : FeatureCacheFiles
deriving DecidableEq

/-- Why there is no usable configuration. -/
inductive ConfigError where
  | fileNotFound (path : Path)
  | unopenable (directory : Path) (obstacle : Obstacle)
  | unreadable (path : Path) (fault : Fault)
  | malformedFile (path : Path)
  | invalidFlag (name value : Text)
  | malformed
  | outputHoldsFeatures (output features : Path)
deriving DecidableEq

namespace ConfigError

/-- The start of every message about a configuration file that is there. -/
def failedFile (reason : Text) : Text :=
  "failed to parse configuration file: ".toList ++ reason

/-- The start of every message about a single value. -/
def invalidValue (field reason : Text) : Text :=
  "invalid configuration value for '".toList ++ field ++ "': ".toList ++ reason

/-- The text of a configuration error. -/
def message : ConfigError → Text
  | .fileNotFound path => "configuration file not found: ".toList ++ path.spelling
  | .unopenable directory obstacle =>
    failedFile ("failed to open directory ".toList ++ directory.spelling ++ ": ".toList
      ++ obstacle.message)
  | .unreadable path fault =>
    failedFile ("failed to read ".toList ++ path.spelling ++ ": ".toList ++ fault.message)
  | .malformedFile path =>
    failedFile ("failed to parse ".toList ++ path.spelling ++ ": ".toList ++ malformedReason)
  | .invalidFlag name value =>
    invalidValue name
      ("expected bool (true/false), got '".toList ++ value ++ "'".toList)
  | .malformed => "configuration loading failed: ".toList ++ malformedReason
  | .outputHoldsFeatures output features =>
    invalidValue "output_dir".toList
      ("'".toList ++ output.spelling ++ "' must not equal or contain features_dir '".toList
        ++ features.spelling ++ "'".toList)

end ConfigError

namespace StepGroupFiles

/-- Where the files of step groups are when nothing is said. -/
def default : StepGroupFiles where
  sourceDirectory := .of "features/step-groups"
  catalog := .of ".featprep/step-groups.json"
  provenance := .of ".featprep/step-groups.provenance.json"
  bindings := .of "tests/steps/step_groups_generated.rs"

end StepGroupFiles

namespace FeatureCacheFiles

/-- Where the files of the feature cache are when nothing is said. -/
def default : FeatureCacheFiles where
  enabled := true
  directory := .of ".featprep/features"
  metadata := .of ".featprep/feature-cache.json"

end FeatureCacheFiles

namespace Config

/-- The configuration when nothing is said. -/
def default : Config where
  featuresDirectory := .of "features"
  outputDirectory := .of ".features-gen"
  dataDirectory := .of "test-data"
  stepGroups := .default
  featureCache := .default

/-- Whether the output directory neither is nor holds the features directory, by spelling. -/
def isSafe (config : Config) : Bool :=
  !config.featuresDirectory.liesWithin config.outputDirectory

/-- Refuses a configuration whose builds would delete the features. -/
def validate (config : Config) : Except ConfigError Unit :=
  if config.isSafe then .ok ()
  else .error (.outputHoldsFeatures config.outputDirectory config.featuresDirectory)

end Config

end FeaturePress
