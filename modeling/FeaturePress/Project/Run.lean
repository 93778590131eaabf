import FeaturePress.Config.Load
import FeaturePress.Project.Build
import FeaturePress.Project.Clean

/-! Running a command line on a disk: how the run ends, and the status that tells so. -/

namespace FeaturePress

/-- What a run knows of its surroundings: the variables of the environment and the directory that
it is started in.
-/
structure Surroundings where
  variableValue : Text → Option Text
  here : Path

/-- How a run ends. -/
inductive Ending where
  | stopped (stop : UsageStop)
  | failed (error : CommandError)
  | failedFiles (files : List (Path × Text))
  | done
deriving DecidableEq

namespace Ending

/-- The status of a run. Asking for help or the version is no mistake. -/
def status : Ending → Nat
  | .stopped .displayHelp => 0
  | .stopped .displayVersion => 0
  | .stopped _ => 2
  | .failed _ => 1
  | .failedFiles _ => 1
  | .done => 0

/-- How the run of a command ends that has an outcome. -/
def ofOutcome (outcome : BuildOutcome) : Ending :=
  if outcome.isSuccess then .done else .failedFiles outcome.failed

end Ending

/-- The workspace of a configuration, where both records are documents on the disk. -/
def Workspace.ofConfig (config : Config) (disk : Disk) : Workspace :=
  ⟨disk, .file config.stepGroups.provenance, .file config.featureCache.metadata⟩

/-- The value of a variable in a feature file; one that is not set has none. -/
def Surroundings.substitute (surroundings : Surroundings) (name : Text) : Text :=
  (surroundings.variableValue name).getD []

/-- The command of an action. -/
def Action.command (action : Action) (config : Config) (surroundings : Surroundings)
    : Command Ending :=
  match action with
  | .build force _ => Ending.ofOutcome <$> Build.run config surroundings.substitute force
  | .stepGroups force => (fun _ => .done) <$> Refresh.run config.stepGroups force
  | .clean => (fun _ => .done) <$> Clean.run config

/-- Runs a command line: how it ends, and the disk afterwards. -/
def CommandLine.run (commandLine : CommandLine) (surroundings : Surroundings) (disk : Disk)
    : Ending × Disk :=
  match commandLine.loadConfig disk surroundings.variableValue surroundings.here with
  | .error error => (.failed (.config error), disk)
  | .ok config =>
    match commandLine.action.command config surroundings (.ofConfig config disk) with
    | .ok ending workspace => (ending, workspace.disk)
    | .error error workspace => (.failed error, workspace.disk)

/-- Reads the arguments of a command line and runs it. -/
def runArguments (arguments : List Text) (surroundings : Surroundings) (disk : Disk)
    : Ending × Disk :=
  match CommandLine.ofArguments arguments with
  | .error stop => (.stopped stop, disk)
  | .ok commandLine => commandLine.run surroundings disk

end FeaturePress
