import FeaturePress.Examples.Block
import FeaturePress.Text.Marks

/-! Placeholders for variables in examples blocks. Every line of a block is looked at, and a
placeholder that is not closed on its line is kept.
-/

namespace FeaturePress.Variables

/-- How a placeholder opens. -/
def opening : Text := "$\x7benv.".toList

/-- How a placeholder closes. -/
def closing : Text := ['\x7d']

/-- The key of a placeholder that begins a text. -/
def placeholder? (text : Text) : Option (Text × Nat) :=
  (Text.enclosed? opening closing text).map fun (key, count) => (Text.trim key, count)

/-- The keys of a line's placeholders, in order. -/
def keysOfLine (line : Text) : List Text :=
  Text.marksOf (Text.pieces placeholder? line)

/-- A line with the values of its placeholders. -/
def substituteLine (value : Text → Text) (line : Text) : Text :=
  Text.writePieces value (Text.pieces placeholder? line)

/-- The lines of a segment, those of a block with the values of their placeholders. -/
def substituteSegment (value : Text → Text) : Segment → List Text
  | .line text => [text]
  | .block block => block.lines.map (substituteLine value)

/-- A text with the values of the placeholders in its blocks. -/
def substitute (value : Text → Text) (text : Text) : Text :=
  Text.joinLines ((Segment.ofText text).flatMap (substituteSegment value))

/-- The keys whose values a text asks for, in order. -/
def keys (text : Text) : List Text :=
  (Segment.ofText text).flatMap fun
    | .line _ => []
    | .block block => block.lines.flatMap keysOfLine

end FeaturePress.Variables
