import FeaturePress.StepGroup.Catalog
import FeaturePress.Text.Lines

/-! References to step groups and their replacement by the steps of the group, framed by comment
lines.
-/

namespace FeaturePress

/-- A reference line: the written name of a group and a description. -/
structure Reference where
  name : Text
  description : Text
deriving DecidableEq

namespace Reference

/-- What a reference line begins with. -/
def lead : Text := "* Step Group:".toList

/-- What stands between the name and the description. -/
def between : Text := "- -".toList

/-- Reads a line without blanks around it: after the lead, the name and the description between
dashes, where the name ends at the first place it can.
-/
def ofLine? (line : Text) : Option Reference := do
  let rest ← Text.after? lead line
  let body ← Text.after? ['-'] (Text.trim rest)
  let (name, tail) ← Text.cut? between body
  let description ← Text.before? ['-'] tail
  if name.isEmpty then none else some ⟨name, description⟩

/-- The lines that stand for one line: the framed steps of a known group, or the line itself. -/
def expandLine (catalog : Catalog) (line : Text) : List Text :=
  match ofLine? (Text.trim line) with
  | none => [line]
  | some reference =>
    match catalog.lookup? reference.name with
    | none => [line]
    | some entry =>
      let indent := Text.indentation line
      (indent ++ "# [START] Step Group: ".toList ++ reference.name ++ " - ".toList
          ++ reference.description)
        :: entry.steps ++ [indent ++ "# [END] Step Group: ".toList ++ reference.name]

/-- A text with every reference to a known group replaced. -/
def inline (catalog : Catalog) (text : Text) : Text :=
  Text.joinLines ((Text.splitLines text).flatMap (expandLine catalog))

end Reference

end FeaturePress
