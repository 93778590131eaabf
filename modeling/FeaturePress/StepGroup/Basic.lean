import FeaturePress.Text.Blank

/-! Step groups: named sequences of steps, their names, and which lines are steps. -/

namespace FeaturePress

/-- A named sequence of steps with the description of the scenario that declares it. Steps are
kept as written.
-/
structure StepGroup where
  name : Text
  description : Text
  steps : List Text
deriving DecidableEq

namespace StepGroup

/-- The suffix that every group name carries. -/
def nameSuffix : Text := ".sg".toList

/-- The pattern of a group name without its suffix, as messages show it. -/
def namePattern : Text := "[A-Za-z0-9_]+".toList

/-- Whether a group name may hold the character. -/
def isNameChar (c : Char) : Bool :=
  c.isAlphanum || c = '_'

/-- A name without its suffix. -/
def baseName (name : Text) : Text :=
  (Text.before? nameSuffix name).getD name

/-- The full name that a written one stands for: with the suffix, which may have been left out.
-/
def fullName? (written : Text) : Option Text :=
  let base := baseName written
  if !base.isEmpty && base.all isNameChar then some (base ++ nameSuffix) else none

/-- The words that begin a step. -/
def stepKeywords : List Text :=
  ["Given".toList, "When".toList, "Then".toList, "And".toList, "But".toList]

/-- Whether a line without blanks around it is a step: a star or a keyword that stands alone or
before a blank.
-/
def isStepLine (line : Text) : Bool :=
  line = ['*'] || Text.startsWith line ['*', ' '] ||
    stepKeywords.any fun keyword =>
      match Text.after? keyword line with
      | some [] => true
      | some (c :: _) => Text.isBlank c
      | none => false

end StepGroup

end FeaturePress
