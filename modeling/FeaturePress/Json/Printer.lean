import FeaturePress.Json.Basic
import FeaturePress.Number.Shortest

/-! Writing JSON: compactly on one line, or with one member or item on each line, indented by two
blanks for every level. Only the quotation mark, the backslash and controls are escaped.
-/

namespace FeaturePress.Json

/-- The quotation mark around texts. -/
def quotation : Char := '\x22'

/-- Doubles have at least one decimal, and an exponent with its sign outside 10⁻⁵ to 10¹⁶. -/
def numberLayout : DecimalLayout := ⟨-5, 16, true, .toEven⟩

/-- How one character of a text is written. -/
def escape (c : Char) : Text :=
  if c = quotation then ['\\', quotation]
  else if c = '\\' then ['\\', '\\']
  else if 0x20 ≤ c.toNat then [c]
  else if c = '\x08' then ['\\', 'b']
  else if c = '\t' then ['\\', 't']
  else if c = '\n' then ['\\', 'n']
  else if c = '\x0c' then ['\\', 'f']
  else if c = '\r' then ['\\', 'r']
  else "\\u00".toList ++ [Nat.digitChar (c.toNat / 16), Nat.digitChar (c.toNat % 16)]

/-- A text between quotation marks. -/
def printText (value : Text) : Text :=
  quotation :: value.flatMap escape ++ [quotation]

/-- A value without parts. -/
def printScalar : Json → Text
  | .bool true => "true".toList
  | .bool false => "false".toList
  | .integer value => Text.ofInt value
  | .double value => value.format numberLayout
  | .text value => printText value
  | _ => "null".toList

/-- A line feed and the indentation of a level. -/
def newLine (level : Nat) : Text :=
  '\n' :: List.replicate (2 * level) ' '

mutual
/-- A value on one line without blanks. -/
def compact : Json → Text
  | .list items => '[' :: compactItems items ++ [']']
  | .object members => '\x7b' :: compactMembers members ++ ['\x7d']
  | value => printScalar value

/-- Items on one line, with commas between them. -/
def compactItems : List Json → Text
  | [] => []
  | [item] => compact item
  | item :: items => compact item ++ ',' :: compactItems items

/-- Members on one line, with commas between them. -/
def compactMembers : List (Text × Json) → Text
  | [] => []
  | [(name, value)] => printText name ++ ':' :: compact value
  | (name, value) :: members =>
    printText name ++ ':' :: compact value ++ ',' :: compactMembers members
end

mutual
/-- A value on several lines, begun at a level of indentation. -/
def prettyAt (level : Nat) : Json → Text
  | .list [] => "[]".toList
  | .list items => '[' :: prettyItems (level + 1) items ++ newLine level ++ [']']
  | .object [] => ['\x7b', '\x7d']
  | .object members =>
    '\x7b' :: prettyMembers (level + 1) members ++ newLine level ++ ['\x7d']
  | value => printScalar value

/-- Items on lines of their own. -/
def prettyItems (level : Nat) : List Json → Text
  | [] => []
  | [item] => newLine level ++ prettyAt level item
  | item :: items => newLine level ++ prettyAt level item ++ ',' :: prettyItems level items

/-- Members on lines of their own. -/
def prettyMembers (level : Nat) : List (Text × Json) → Text
  | [] => []
  | [(name, value)] => newLine level ++ printText name ++ ": ".toList ++ prettyAt level value
  | (name, value) :: members =>
    newLine level ++ printText name ++ ": ".toList ++ prettyAt level value
      ++ ',' :: prettyMembers level members
end

/-- A value on several lines, ended by a line feed: the form of state documents. -/
def pretty (value : Json) : Text :=
  prettyAt 0 value ++ ['\n']

/-- The member name that a scalar key is written as; other keys have none. -/
def memberName? : Json → Option Text
  | .text value => some value
  | .list _ | .object _ | .null | .unrepresentable => none
  | value => some (printScalar value)

end FeaturePress.Json
