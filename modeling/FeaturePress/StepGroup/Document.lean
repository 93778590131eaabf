import FeaturePress.StepGroup.Basic
import FeaturePress.Text.Lines

/-! Step-group documents: reading the groups that a document declares. A document declares groups
when the marker tag stands before its feature line. A group begins at its tag, is described by the
scenario line after it, and collects step lines up to the next tag.
-/

namespace FeaturePress

/-- Why a step-group document cannot be read. Lines are counted from one. -/
inductive StepGroupError where
  | invalidName (file : Text) (line : Nat) (content : Text)
  | outlineNotAllowed (file : Text) (line : Nat) (content : Text)
  | missingDescription (file name : Text) (line : Nat) (content : Text)
deriving DecidableEq

/-- The text of a step-group error. -/
def StepGroupError.message : StepGroupError → Text
  | .invalidName file line content =>
    "✗ invalid step group name in ".toList ++ file ++ ":".toList ++ Text.ofNat line
      ++ ": '".toList ++ content
      ++ "' (expected @StepGroup:<name> with <name> matching ".toList
      ++ StepGroup.namePattern ++ ")".toList
  | .outlineNotAllowed file line content =>
    "✗ step group in ".toList ++ file ++ ":".toList ++ Text.ofNat line
      ++ " is described by a Scenario Outline: '".toList ++ content
      ++ "' (step groups cannot be parameterised; use Scenario:)".toList
  | .missingDescription file name line content =>
    "✗ step group '".toList ++ name ++ "' in ".toList ++ file ++ ":".toList ++ Text.ofNat line
      ++ " is not followed by a Scenario: description (found '".toList ++ content
      ++ "')".toList

namespace StepGroup

/-- The tag that marks a document as declaring groups. -/
def marker : Text := "@StepGroup".toList

/-- What a tag that begins a group starts with. -/
def tagLead : Text := "@StepGroup:".toList

/-- Whether the marker tag stands before the feature line. -/
def declaresGroups (document : Text) : Bool :=
  (((Text.lines document).map Text.trim).takeWhile
    fun line => !Text.startsWith line "Feature:".toList).any
    fun line => Text.startsWith line ['@'] && (Text.words line).contains marker

/-- The written name of the group that a trimmed line begins. -/
def taggedName? (line : Text) : Option Text :=
  (Text.after? tagLead line).map fun rest => (Text.words rest).headD []

/-- What is being looked for while the lines are read. -/
inductive Reading where
  | seeking
  | heading (name : Text)
  | collecting (group : StepGroup)

/-- After a line outside a group: a tag with a name begins one. -/
def Reading.atTag (file : Text) (number : Nat) (line : Text) : Except StepGroupError Reading :=
  match taggedName? line with
  | none => .ok .seeking
  | some written =>
    match fullName? written with
    | some name => .ok (.heading name)
    | none => .error (.invalidName file number line)

/-- After a line behind the tag of a group: blank lines are passed over, and then the description
must stand.
-/
def Reading.atHeading (file name : Text) (number : Nat) (line : Text)
    : Except StepGroupError Reading :=
  if line.isEmpty then .ok (.heading name)
  else if Text.startsWith line "Scenario Outline:".toList
      || Text.startsWith line "Scenario Template:".toList then
    .error (.outlineNotAllowed file number line)
  else
    match Text.after? "Scenario:".toList line <|> Text.after? "Example:".toList line with
    | some description => .ok (.collecting ⟨name, Text.trim description, []⟩)
    | none => .error (.missingDescription file name number line)

/-- The groups declared from some line on. -/
def readFrom (file : Text)
    : Reading → Nat → List Text → Except StepGroupError (List StepGroup)
  | .seeking, _, [] => .ok []
  | .heading name, number, [] => .error (.missingDescription file name number [])
  | .collecting group, _, [] => .ok [group]
  | .seeking, number, line :: rest =>
    match Reading.atTag file number (Text.trim line) with
    | .ok reading => readFrom file reading (number + 1) rest
    | .error error => .error error
  | .heading name, number, line :: rest =>
    match Reading.atHeading file name number (Text.trim line) with
    | .ok reading => readFrom file reading (number + 1) rest
    | .error error => .error error
  | .collecting group, number, line :: rest =>
    let trimmed := Text.trim line
    if Text.startsWith trimmed ['@'] then
      match Reading.atTag file number trimmed with
      | .ok reading => (readFrom file reading (number + 1) rest).map (group :: ·)
      | .error error => .error error
    else
      let steps := if isStepLine trimmed then group.steps ++ [line] else group.steps
      readFrom file (.collecting { group with steps }) (number + 1) rest

/-- The groups that a document declares, in order. The file name only appears in errors. -/
def ofDocument (document file : Text) : Except StepGroupError (List StepGroup) :=
  if declaresGroups document then readFrom file .seeking 1 (Text.lines document) else .ok []

end StepGroup

end FeaturePress
