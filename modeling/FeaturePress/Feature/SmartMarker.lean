import FeaturePress.Text.Blank
import FeaturePress.Text.Marks

/-! Inline markers with an expression, which become comments. A marker that is not closed on its
line is kept.
-/

namespace FeaturePress.SmartMarker

/-- How a marker opens. -/
def opening : Text := "[[SMART:".toList

/-- How a marker closes. -/
def closing : Text := "]]".toList

/-- The expression of a marker that begins a text and is closed on the same line. -/
def marker? (text : Text) : Option (Text × Nat) :=
  (Text.enclosed? opening closing text).filter fun found => !found.1.contains '\n'

/-- The comment that stands for a marker. -/
def comment (expression : Text) : Text :=
  "/* smart: ".toList ++ Text.trim expression ++ " */".toList

/-- A text with the comment of every marker in its place. -/
def toComments (text : Text) : Text :=
  Text.writePieces comment (Text.pieces marker? text)

end FeaturePress.SmartMarker
