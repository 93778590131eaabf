import FeaturePress.Text.Basic

/-! Two notions of line. Stages that change a text split it at every line feed and join the
pieces again; stages that only read it take its terminated lines, where a carriage return before
the line feed belongs to the line end and a last empty piece is no line.
-/

namespace FeaturePress.Text

/-- The pieces between line feeds; there is always at least one. -/
def splitLines (text : Text) : List Text :=
  text.splitOn '\n'

/-- The pieces joined with line feeds. -/
def joinLines (pieces : List Text) : Text :=
  List.intercalate ['\n'] pieces

/-- A line without the carriage return it ends with. -/
def dropReturn (line : Text) : Text :=
  (before? ['\r'] line).getD line

/-- The lines of a list of pieces: each piece but the last was ended by a line feed. -/
def linesOfPieces : List Text → List Text
  | [] => []
  | [last] => if last.isEmpty then [] else [last]
  | piece :: pieces => dropReturn piece :: linesOfPieces pieces

/-- The terminated lines of a text; a last line without line feed keeps its carriage return. -/
def lines (text : Text) : List Text :=
  linesOfPieces (splitLines text)

end FeaturePress.Text
