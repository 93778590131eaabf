import FeaturePress.Text.Basic

/-! Finding marks in a text: at each place outside the marks already found, a rule says whether a
mark begins there and how many characters it takes.
-/

namespace FeaturePress.Text

/-- A part of a text: a character that stands for itself, or a mark. -/
inductive Piece (α : Type) where
  | char (c : Char)
  | mark (value : α)
deriving DecidableEq

/-- The pieces of a text after its first `skip` characters. The rule gives the value of a mark and
how many characters it takes after its first.
-/
def piecesFrom (mark? : Text → Option (α × Nat)) : (skip : Nat) → Text → List (Piece α)
  | _, [] => []
  | skip + 1, _ :: rest => piecesFrom mark? skip rest
  | 0, c :: rest =>
    match mark? (c :: rest) with
    | some (value, more) => .mark value :: piecesFrom mark? more rest
    | none => .char c :: piecesFrom mark? 0 rest

/-- The pieces of a whole text. -/
def pieces (mark? : Text → Option (α × Nat)) (text : Text) : List (Piece α) :=
  piecesFrom mark? 0 text

/-- The text of some pieces, where marks are written in a new way. -/
def writePieces (write : α → Text) (found : List (Piece α)) : Text :=
  found.flatMap fun
    | .char c => [c]
    | .mark value => write value

/-- The marks among some pieces, in order. -/
def marksOf (found : List (Piece α)) : List α :=
  found.filterMap fun
    | .char _ => none
    | .mark value => some value

/-- What stands between an opening at the head of a text and the first closing after it, and how
many characters the whole takes after its first.
-/
def enclosed? (opening closing text : Text) : Option (Text × Nat) :=
  match after? opening text with
  | none => none
  | some body =>
    (cut? closing body).map fun (content, _) =>
      (content, opening.length + content.length + closing.length - 1)

end FeaturePress.Text
