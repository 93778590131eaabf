import FeaturePress.Number.Numeral
import FeaturePress.Text.Blank

/-! Values of filter expressions: cells typed by their spelling, truth, the two equalities and the
order. Numbers compare with numbers and texts with texts; the loose equality also reads a text as
a number, and a truth value as zero or one.
-/

namespace FeaturePress.Filter

/-- The value of an expression on a row. -/
inductive Value where
  | null
  | bool (value : Bool)
  | number (value : Binary64)
  | text (value : Text)
deriving DecidableEq

/-- Whether a number may hold the character. -/
def isNumeric (c : Char) : Bool :=
  c.isDigit || c = '-' || c = '+' || c = '.' || c = 'e' || c = 'E'

/-- The number that a text writes between blanks. Words for infinity and the like are no numbers.
-/
def numberOf? (raw : Text) : Option Binary64 :=
  let trimmed := Text.trim raw
  if trimmed.all isNumeric then (Numeral.ofText? trimmed).map Numeral.toBinary64 else none

namespace Value

/-- The value of a cell: a truth value, a number or else the text itself. -/
def ofCell (raw : Text) : Value :=
  if raw = "true".toList then .bool true
  else if raw = "false".toList then .bool false
  else
    match numberOf? raw with
    | some value => .number value
    | none => .text raw

/-- Null, `false`, zero and the empty text are not true; all else is. -/
def isTrue : Value → Bool
  | .null => false
  | .bool value => value
  | .number value => !value.isZero
  | .text value => !value.isEmpty

/-- Equality within a type. -/
def strictlyEquals : Value → Value → Bool
  | .null, .null => true
  | .bool left, .bool right => left == right
  | .number left, .number right => left.same right
  | .text left, .text right => left == right
  | _, _ => false

/-- The number of a truth value. -/
def ofFlag (flag : Bool) : Binary64 :=
  if flag then .one else .zero

/-- Equality that reads texts and truth values as numbers beside a number. -/
def equals (left right : Value) : Bool :=
  match left, right with
  | .number value, .text written | .text written, .number value =>
    (numberOf? written).any value.same
  | .bool flag, .number value | .number value, .bool flag => value.same (ofFlag flag)
  | _, _ => strictlyEquals left right

/-- The order of two numbers or two texts; texts are ordered by their character codes. -/
def order? : Value → Value → Option Ordering
  | .number left, .number right => some (left.order right)
  | .text left, .text right => some (compare left right)
  | _, _ => none

end Value

end FeaturePress.Filter
