import FeaturePress.Text.Blank
import FeaturePress.Text.Lines

/-! Tags that name the source of a scenario, put above every scenario that has no tag yet. -/

namespace FeaturePress.SourceTag

/-- What a scenario line begins with. -/
def scenarioKeywords : List Text :=
  ["Scenario:".toList, "Scenario Outline:".toList, "Scenario Template:".toList,
   "Example:".toList]

/-- Whether a line begins a scenario. -/
def isScenario (line : Text) : Bool :=
  scenarioKeywords.any (Text.startsWith (Text.trim line))

/-- Whether a line holds tags. -/
def isTagLine (line : Text) : Bool :=
  Text.startsWith (Text.trim line) ['@']

/-- The tag of a source path; blanks in it become underscores so that it is one word. -/
def tag (path : Text) : Text :=
  "@source:".toList ++ path.map fun c => if Text.isBlank c then '_' else c

/-- Lines with a tag above each scenario that has none, where `tagged` tells whether the last
line before them that is not blank holds tags.
-/
def tagLines (path : Text) : (tagged : Bool) → List Text → List Text
  | _, [] => []
  | tagged, line :: rest =>
    let next := if Text.isBlankText line then tagged else isTagLine line
    if !tagged && isScenario line then
      (Text.indentation line ++ tag path) :: line :: tagLines path next rest
    else line :: tagLines path next rest

/-- A text with its scenarios tagged. -/
def tagScenarios (path text : Text) : Text :=
  Text.joinLines (tagLines path false (Text.splitLines text))

end FeaturePress.SourceTag
