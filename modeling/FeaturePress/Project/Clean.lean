import FeaturePress.Disk.Remove
import FeaturePress.Project.Command

/-! Cleaning: the output tree, the feature cache and the state documents are removed. The file of
bindings stays, since it lives with the sources of the tests.
-/

namespace FeaturePress.Clean

/-- The generated directories. -/
def directories (config : Config) : List Path :=
  [config.outputDirectory, config.featureCache.directory]

/-- The state documents. -/
def documents (config : Config) : List Path :=
  [config.stepGroups.catalog, config.stepGroups.provenance, config.featureCache.metadata]

/-- Removes the paths that are there, in one way: those that were. -/
def removeAll (remove : Disk → Path → Except FileError Unit × Disk)
    : List Path → Command (List Path)
  | [] => return []
  | path :: rest => do
    if (← get).disk.holds path then
      Command.change (remove · path)
      return path :: (← removeAll remove rest)
    else removeAll remove rest

/-- Cleans a project: the paths that were removed. -/
def run (config : Config) : Command (List Path) := do
  Command.require config.validate .config
  let trees ← removeAll Disk.removeTree (directories config)
  let files ← removeAll Disk.removeFile (documents config)
  return trees ++ files

end FeaturePress.Clean
