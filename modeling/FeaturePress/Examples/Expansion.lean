import FeaturePress.Data.Source
import FeaturePress.Examples.Literal
import FeaturePress.Examples.Table
import FeaturePress.Filter.Evaluate

/-! Data-driven examples: every block that asks for a data file gives way to the table of the rows
that its filter keeps. Blocks that ask for nothing, or for a file that is missing, stay as they
are.
-/

namespace FeaturePress

/-- Why examples cannot be expanded. Errors name the feature file. -/
inductive ExamplesError where
  | noMatchingRows (feature : Path) (dataFile condition : Text)
  | emptyDataFile (feature : Path) (dataFile : Text)
  | filter (feature : Path) (cause : FilterError)
  | data (feature : Path) (cause : DataError)
deriving DecidableEq

/-- The text of an examples error. -/
def ExamplesError.message : ExamplesError → Text
  | .noMatchingRows feature dataFile condition =>
    "✗ no matching rows in '".toList ++ dataFile ++ "' for filter '".toList ++ condition
      ++ "' (".toList ++ feature.spelling ++ ")".toList
  | .emptyDataFile feature dataFile =>
    "✗ data file '".toList ++ dataFile ++ "' has no rows (".toList ++ feature.spelling
      ++ ")".toList
  | .filter feature cause =>
    "✗ filter error in ".toList ++ feature.spelling ++ ": ".toList ++ cause.message
  | .data feature cause =>
    "✗ data error in ".toList ++ feature.spelling ++ ": ".toList ++ cause.message

/-- What expansion needs besides a text: the path of the feature file, the directory of data files
that are not beside it, and the data.
-/
structure ExamplesContext where
  feature : Path
  dataDirectory : Path
  source : DataSource

namespace ExamplesContext

/-- Where a data file may be: an absolute path stands for itself, others are looked for beside
the feature file and then in the data directory.
-/
def candidates (context : ExamplesContext) (dataFile : Path) : List Path :=
  if dataFile.isAbsolute then [dataFile]
  else
    (context.feature.parent?.map (·.join dataFile)).toList
      ++ [context.dataDirectory.join dataFile]

/-- The data file that a block names. -/
def locate? (context : ExamplesContext) (dataFile : Text) : Option Path :=
  (context.candidates ⟨dataFile⟩).find? context.source.holds

/-- The rows that a filter keeps, up to the first one it fails on. -/
def keepRows (filter : Filter) : List Row → Except FilterError (List Row)
  | [] => .ok []
  | row :: rows =>
    match filter.keeps row with
    | .error error => .error error
    | .ok kept =>
      match keepRows filter rows with
      | .error error => .error error
      | .ok more => .ok (if kept then row :: more else more)

/-- The rows that the filter of a specification keeps; without a filter all. -/
def select (rows : List Row) : Option Text → Except FilterError (List Row)
  | none => .ok rows
  | some source =>
    match Filter.parse source with
    | .error error => .error error
    | .ok filter => keepRows filter rows

/-- The rows that a specification asks for, of the data file at a path. -/
def rowsFor (context : ExamplesContext) (spec : ExamplesSpec) (path : Path)
    : Except ExamplesError (List Row) :=
  match context.source.rows path spec.sheetName with
  | .error cause => .error (.data context.feature cause)
  | .ok rows =>
    if rows.isEmpty then .error (.emptyDataFile context.feature spec.dataFile)
    else
      match select rows spec.filter with
      | .error cause => .error (.filter context.feature cause)
      | .ok kept =>
        if kept.isEmpty then
          .error (.noMatchingRows context.feature spec.dataFile (spec.filter.getD []))
        else .ok kept

/-- What a block asks for and where it is, if it asks for a file that is there. -/
def request? (context : ExamplesContext) (block : Block) : Option (ExamplesSpec × Path) := do
  let spec ← ExamplesSpec.ofLiteral? block.literal
  let path ← context.locate? spec.dataFile
  return (spec, path)

/-- The lines that stand for a segment. -/
def expandSegment (context : ExamplesContext) : Segment → Except ExamplesError (List Text)
  | .line text => .ok [text]
  | .block block =>
    match context.request? block with
    | none => .ok block.lines
    | some (spec, path) => (context.rowsFor spec path).map (Table.lines block.indent)

/-- The lines that stand for some segments, up to the first that fails. -/
def expandSegments (context : ExamplesContext)
    : List Segment → Except ExamplesError (List Text)
  | [] => .ok []
  | segment :: rest =>
    match context.expandSegment segment with
    | .error error => .error error
    | .ok lines => (context.expandSegments rest).map (lines ++ ·)

/-- A text with its data-driven examples expanded. -/
def expand (context : ExamplesContext) (text : Text) : Except ExamplesError Text :=
  (context.expandSegments (Segment.ofText text)).map Text.joinLines

end ExamplesContext

end FeaturePress
