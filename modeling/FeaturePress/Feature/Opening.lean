import FeaturePress.Text.Blank
import FeaturePress.Text.Lines

/-! How a feature file opens: blank lines, comments and tags, and then the line of the feature. -/

namespace FeaturePress.Opening

/-- Whether a line without blanks around it may stand before the feature line. -/
def isLeading (line : Text) : Bool :=
  line.isEmpty || Text.startsWith line ['#'] || Text.startsWith line ['@']

/-- Whether the first line that must be the feature line is one. -/
def startsWithFeature (content : Text) : Bool :=
  ((((Text.lines content).map Text.trim).find? (!isLeading ·)).map
    (Text.startsWith · "Feature:".toList)).getD false

/-- How many characters of a text messages show. -/
def previewLength : Nat := 80

/-- The part of a text that messages show. -/
def preview (text : Text) : Text :=
  text.take previewLength

end FeaturePress.Opening
