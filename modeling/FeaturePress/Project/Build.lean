import FeaturePress.Feature.Cache
import FeaturePress.Disk.Remove
import FeaturePress.Feature.Preparation
import FeaturePress.Project.Refresh

/-! Building: the step groups are refreshed, the output tree is made anew, and every feature file is
prepared or taken from the cache. A file that fails does not keep the others from being built.
-/

namespace FeaturePress

/-- What became of a feature file. -/
inductive FileOutcome where
  | processed
  | reused
  | failed (error : PrepareError)
deriving DecidableEq

/-- The outcome of a build: what became of the step groups, and of every file in order. -/
structure BuildOutcome where
  refresh : Refresh
  files : List (Path × FileOutcome)
deriving DecidableEq

namespace BuildOutcome

/-- The files that were prepared. -/
def processed (outcome : BuildOutcome) : List Path :=
  (outcome.files.filter (·.2 = .processed)).map (·.1)

/-- The files that were taken from the cache. -/
def reused (outcome : BuildOutcome) : List Path :=
  (outcome.files.filter (·.2 = .reused)).map (·.1)

/-- The mark before every reason. -/
def failureMark : Text := "✗".toList

/-- The reason of a failure, marked once. -/
def reason (error : PrepareError) : Text :=
  let text := error.message
  if Text.startsWith text failureMark then text else failureMark ++ ' ' :: text

/-- The files that failed, with the reasons. -/
def failed (outcome : BuildOutcome) : List (Path × Text) :=
  outcome.files.filterMap fun (path, result) =>
    match result with
    | .failed error => some (path, reason error)
    | _ => none

/-- Whether no file failed. -/
def isSuccess (outcome : BuildOutcome) : Bool :=
  outcome.failed.isEmpty

end BuildOutcome

namespace Build

/-- Caches a prepared file if it opens as a feature; the build goes on when that fails. -/
def cache (config : Config) (source : Path) (content : Text) (workspace : Workspace)
    : Workspace :=
  if config.featureCache.enabled && Opening.startsWithFeature content then
    match FeatureCache.persist config workspace.disk workspace.metadata source content with
    | (_, disk, metadata) => { workspace with disk, metadata }
  else workspace

/-- Prepares a file and caches it. -/
def process (preparation : Preparation) (source : Path) (workspace : Workspace)
    : FileOutcome × Workspace :=
  match preparation.run workspace.disk source with
  | (.ok (_, content), disk) =>
    (.processed, cache preparation.config source content { workspace with disk })
  | (.error error, disk) => (.failed error, { workspace with disk })

/-- Copies the cached form of a file to its place in the output tree. -/
def restore (preparation : Preparation) (source cached : Path) (workspace : Workspace)
    : Bool × Workspace :=
  match preparation.outputPath source with
  | .error _ => (false, workspace)
  | .ok target =>
    match workspace.disk.copy cached target with
    | (outcome, disk) => (outcome.isOk, { workspace with disk })

/-- Builds a file: a cached form that may be taken is, unless it cannot be copied. -/
def buildFile (preparation : Preparation) (reuseAllowed : Bool) (source : Path)
    (workspace : Workspace)
    : FileOutcome × Workspace :=
  let cached := FeatureCache.cachedPath preparation.config source
  if reuseAllowed && FeatureCache.isReusable preparation.config workspace.disk
      workspace.metadata source cached then
    match restore preparation source cached workspace with
    | (true, restored) => (.reused, restored)
    | (false, restored) => process preparation source restored
  else process preparation source workspace

/-- Builds files one after the other. -/
def buildFiles (preparation : Preparation) (reuseAllowed : Bool)
    : List Path → Workspace → List (Path × FileOutcome) × Workspace
  | [], workspace => ([], workspace)
  | source :: rest, workspace =>
    match buildFile preparation reuseAllowed source workspace with
    | (outcome, built) =>
      match buildFiles preparation reuseAllowed rest built with
      | (outcomes, done) => ((source, outcome) :: outcomes, done)

/-- Whether cached files may be taken at all: step groups may be in any of them. -/
def allowsReuse (config : Config) (force : Bool) (refresh : Refresh) : Bool :=
  config.featureCache.enabled && !force && !refresh.isRegenerated

/-- Empties the output tree. -/
def resetOutput (config : Config) : Command Unit := do
  Command.change (·.removeTree config.outputDirectory)
  Command.change (·.createDirectories config.outputDirectory)

/-- Builds a project. -/
def run (config : Config) (value : Text → Text) (force : Bool) : Command BuildOutcome := do
  Command.require config.validate .config
  let refresh ← Refresh.run config.stepGroups force
  let found ← Command.look
    (·.featureFiles config.featuresDirectory [config.stepGroups.sourceDirectory])
  resetOutput config
  let workspace ← get
  let preparation : Preparation :=
    ⟨config, Catalog.loadOrEmpty workspace.disk config.stepGroups.catalog, value⟩
  let (files, built) := buildFiles preparation (allowsReuse config force refresh) found workspace
  set built
  return ⟨refresh, files⟩

end Build

end FeaturePress
