import FeaturePress.StepGroup.Catalog
import FeaturePress.Text.Quoted

/-! The generated file of bindings: one function without effect for every step group, bound to
the reference line of the group and documented by its steps.
-/

namespace FeaturePress.Bindings

/-- The first line of the file. -/
def header : Text :=
  "// @generated by featprep from step-group documents. Do not edit by hand.".toList

/-- Braces mark placeholders in a pattern, so literal ones are doubled. -/
def doubleBraces (text : Text) : Text :=
  Text.replaceChar '\x7d' ['\x7d', '\x7d'] (Text.replaceChar '\x7b' ['\x7b', '\x7b'] text)

/-- The pattern that binds a group. -/
def pattern (name description : Text) : Text :=
  "Step Group: -".toList ++ doubleBraces name ++ "- -".toList ++ doubleBraces description
    ++ "-".toList

/-- The name of the function of a group. -/
def functionName (name : Text) : Text :=
  "step_group_".toList ++ Text.lowerAscii (StepGroup.baseName name)

/-- A line with its line feed. -/
def line (parts : List Text) : Text :=
  parts.flatten ++ ['\n']

/-- The comment lines that list the steps of a group, if it has any. -/
def stepComment (steps : List Text) : Text :=
  if steps.isEmpty then []
  else
    line ["///".toList] ++ line ["/// ```gherkin".toList]
      ++ steps.flatMap (fun step => line ["/// ".toList, Text.trim step])
      ++ line ["/// ```".toList]

/-- The binding of one group. -/
def binding (name : Text) (entry : CatalogEntry) : Text :=
  line []
    ++ line ["/// Step Group `".toList, name, "`: ".toList, entry.description]
    ++ stepComment entry.steps
    ++ line ["#[given(".toList, Text.Quoted.encode (pattern name entry.description),
        ")]".toList]
    ++ line ["pub fn ".toList, functionName name, "() \x7b\x7d".toList]

/-- The file of all bindings, in the order of the group names. -/
def file (catalog : Catalog) : Text :=
  line [header] ++ line [] ++ line ["use rstest_bdd_macros::given;".toList]
    ++ catalog.toList.flatMap fun (name, entry) => binding name entry

end FeaturePress.Bindings
