import FeaturePress.Config.Basic
import FeaturePress.Disk.Write
import FeaturePress.Examples.Expansion
import FeaturePress.Examples.Variables
import FeaturePress.Feature.SmartMarker
import FeaturePress.Feature.SourceTag
import FeaturePress.StepGroup.Reference

/-! Preparing a feature file: variables are substituted, data-driven examples expanded, step groups
put in place of their references, markers made comments and scenarios tagged. The result goes to
the place below the output directory that the source has below the features directory.
-/

namespace FeaturePress

/-- Why a feature file cannot be prepared. -/
inductive PrepareError where
  | examples (cause : ExamplesError)
  | outsideRoot (source root : Path)
  | file (cause : FileError)
deriving DecidableEq

/-- The text of a preparation error. -/
def PrepareError.message : PrepareError → Text
  | .examples cause => cause.message
  | .outsideRoot source root =>
    "✗ ".toList ++ source.spelling ++ " is not inside the features directory ".toList
      ++ root.spelling
  | .file cause => cause.message

/-- What all files of a project are prepared with: the configuration, the known step groups and
the values of variables.
-/
structure Preparation where
  config : Config
  catalog : Catalog
  value : Text → Text

namespace Preparation

/-- The context in which the examples of a source are expanded. -/
def context (preparation : Preparation) (disk : Disk) (source : Path) : ExamplesContext :=
  ⟨source, preparation.config.dataDirectory, .ofDisk disk⟩

/-- The prepared form of a text, where `relative` names its source in tags. -/
def transform (preparation : Preparation) (context : ExamplesContext) (relative text : Text)
    : Except ExamplesError Text :=
  (context.expand (Variables.substitute preparation.value text)).map fun expanded =>
    SourceTag.tagScenarios relative
      (SmartMarker.toComments (Reference.inline preparation.catalog expanded))

/-- The path of a source from the features directory on. -/
def relative (preparation : Preparation) (source : Path) : Except PrepareError Text :=
  match Path.relativeTo? preparation.config.featuresDirectory source with
  | some rest => .ok rest
  | none => .error (.outsideRoot source preparation.config.featuresDirectory)

/-- The path of a source's result in the output tree. -/
def outputPath (preparation : Preparation) (source : Path) : Except PrepareError Path :=
  (preparation.relative source).map fun rest =>
    preparation.config.outputDirectory.join ⟨rest⟩

/-- The prepared form of a source on a disk. -/
def prepared (preparation : Preparation) (disk : Disk) (source : Path)
    : Except PrepareError Text :=
  match preparation.relative source with
  | .error error => .error error
  | .ok rest =>
    match disk.read source with
    | .error cause => .error (.file cause)
    | .ok text =>
      match preparation.transform (preparation.context disk source) rest text with
      | .error cause => .error (.examples cause)
      | .ok content => .ok content

/-- Prepares a source and writes the result: its path and content. -/
def run (preparation : Preparation) (disk : Disk) (source : Path)
    : Except PrepareError (Path × Text) × Disk :=
  match preparation.outputPath source with
  | .error error => (.error error, disk)
  | .ok target =>
    match preparation.prepared disk source with
    | .error error => (.error error, disk)
    | .ok content =>
      match disk.write target (.text content) with
      | (.ok (), written) => (.ok (target, content), written)
      | (.error cause, written) => (.error (.file cause), written)

end Preparation

end FeaturePress
