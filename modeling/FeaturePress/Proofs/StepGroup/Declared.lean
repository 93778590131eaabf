import FeaturePress.StepGroup.Document
import Mathlib.Data.List.Forall2

/-! What a step-group document declares, tag by tag: each tag and the lines after it give one group or
one fault, whatever stands before the tag. Reading the lines one after the other comes to the same.
-/

namespace FeaturePress.StepGroup

deriving instance DecidableEq for Except

-----------------------------------------------------------------------------------------
-- Lines
-----------------------------------------------------------------------------------------

/-- The marker tag stands before the feature line. -/
def IsMarked (document : Text) : Prop :=
  ∃ before line after, Text.lines document = before ++ line :: after
    ∧ (∀ earlier ∈ before, ¬ Text.startsWith (Text.trim earlier) "Feature:".toList)
    ∧ Text.startsWith (Text.trim line) ['@'] ∧ marker ∈ Text.words (Text.trim line)

/-- Whether a line has blanks at most. -/
def isBlankLine (line : Text) : Bool :=
  (Text.trim line).isEmpty

/-- Whether a line begins a group. -/
def isTag (line : Text) : Bool :=
  Text.startsWith (Text.trim line) tagLead

/-- The tags among lines, in their order, each with the lines after it. -/
def tagged : List Text → List (Text × List Text)
  | [] => []
  | line :: rest => if isTag line then (line, rest) :: tagged rest else tagged rest

/-- The steps among lines, up to the next line that begins with a tag of any kind. -/
def stepsOf (lines : List Text) : List Text :=
  (lines.takeWhile fun line => !Text.startsWith (Text.trim line) ['@']).filter fun line =>
    isStepLine (Text.trim line)

/-- A tag names a group: its name is the first word behind what begins a tag. -/
def Names (tag name : Text) : Prop :=
  ∃ rest, Text.trim tag = tagLead ++ rest ∧ fullName? ((Text.words rest).headD []) = some name

/-- A line describes a group: it is a scenario line with the description. -/
def Describes (line description : Text) : Prop :=
  ∃ rest, (Text.trim line = "Scenario:".toList ++ rest ∨ Text.trim line = "Example:".toList ++ rest)
    ∧ Text.trim rest = description

/-- What a tag and the lines after it declare: the tag names the group, the next line that is not blank
describes it, and its steps stand behind that.
-/
structure Declares (tag : Text) (rest : List Text) (group : StepGroup) : Prop where
  named : Names tag group.name
  described : ∃ line after, rest.dropWhile isBlankLine = line :: after
    ∧ Describes line group.description ∧ group.steps = stepsOf after

-----------------------------------------------------------------------------------------
-- Reading tag by tag
-----------------------------------------------------------------------------------------

/-- The name of the group that a tag begins. -/
def name? (tag : Text) : Option Text :=
  (taggedName? (Text.trim tag)).bind fullName?

/-- The description that a scenario line gives. -/
def description? (line : Text) : Option Text :=
  (Text.after? "Scenario:".toList (Text.trim line)
    <|> Text.after? "Example:".toList (Text.trim line)).map Text.trim

/-- Whether a line begins a scenario outline. -/
def isOutline (line : Text) : Bool :=
  Text.startsWith (Text.trim line) "Scenario Outline:".toList
    || Text.startsWith (Text.trim line) "Scenario Template:".toList

/-- Why a line does not describe a group. -/
def headingFault (file name : Text) (number : Nat) (line : Text) : StepGroupError :=
  if isOutline line then .outlineNotAllowed file number (Text.trim line)
  else .missingDescription file name number (Text.trim line)

/-- The group of a name that lines describe, with other lines before them. -/
def readBody (file name : Text) (before lines : List Text) : Except StepGroupError StepGroup :=
  match lines.dropWhile isBlankLine with
  | [] => .error (.missingDescription file name ((before ++ lines).length + 1) [])
  | line :: after =>
    match description? line with
    | some description => .ok ⟨name, description, stepsOf after⟩
    | none =>
      .error (headingFault file name ((before ++ lines.takeWhile isBlankLine).length + 1) line)

/-- The group that a tag and the lines after it declare, with other lines before them. -/
def readTag (file : Text) (before : List Text) (tag : Text) (rest : List Text)
    : Except StepGroupError StepGroup :=
  match name? tag with
  | some name => readBody file name (before ++ [tag]) rest
  | none => .error (.invalidName file (before.length + 1) (Text.trim tag))

/-- The groups that the tags among lines declare, or the first fault. -/
def readTags (file : Text) (before : List Text) : List Text → Except StepGroupError (List StepGroup)
  | [] => .ok []
  | line :: rest =>
    if isTag line then
      (readTag file before line rest).bind fun group =>
        (readTags file (before ++ [line]) rest).map (group :: ·)
    else readTags file (before ++ [line]) rest

-----------------------------------------------------------------------------------------
-- Kinds of lines
-----------------------------------------------------------------------------------------

variable {line : Text}

theorem isTag_iff : isTag line = true ↔ ∃ rest, Text.trim line = tagLead ++ rest := by
  rw [isTag, Text.startsWith_iff]
  exact exists_congr fun rest => eq_comm

theorem taggedName?_eq_none_iff : taggedName? (Text.trim line) = none ↔ isTag line = false := by
  simp [taggedName?, isTag, Text.startsWith]

theorem startsWith_of_isTag (tag : isTag line = true)
    : Text.startsWith (Text.trim line) ['@'] = true := by
  obtain ⟨rest, shape⟩ := isTag_iff.mp tag
  rw [shape]
  rfl

theorem isTag_of_isBlankLine (blank : isBlankLine line = true) : isTag line = false := by
  have empty : Text.trim line = [] := by simpa [isBlankLine] using blank
  rw [isTag, empty]
  rfl

theorem name?_eq_some_iff {name : Text} : name? line = some name ↔ Names line name := by
  simp only [name?, taggedName?, Option.bind_map, Option.bind_eq_some_iff, Text.after?_eq_some_iff,
    Function.comp_apply, Names]
  exact exists_congr fun rest => and_congr_left' eq_comm

theorem description?_eq_some_iff {description : Text}
    : description? line = some description ↔ Describes line description := by
  simp only [description?, Option.map_eq_some_iff, Option.orElse_eq_orElse, Option.orElse_eq_or,
    Option.or_eq_some_iff, Text.after?_eq_some_iff, Describes]
  constructor
  · rintro ⟨rest, scenario | ⟨-, other⟩, trimmed⟩
    · exact ⟨rest, .inl scenario.symm, trimmed⟩
    · exact ⟨rest, .inr other.symm, trimmed⟩
  · rintro ⟨rest, scenario | other, trimmed⟩
    · exact ⟨rest, .inl scenario.symm, trimmed⟩
    · refine ⟨rest, .inr ⟨?_, other.symm⟩, trimmed⟩
      rw [other]
      rfl

theorem description?_of_isOutline (outline : isOutline line = true) : description? line = none := by
  simp only [isOutline, Bool.or_eq_true, Text.startsWith_iff] at outline
  rcases outline with ⟨rest, shape⟩ | ⟨rest, shape⟩ <;> rw [description?, ← shape] <;> rfl

theorem isTag_of_description? {description : Text}
    (describes : description? line = some description)
    : isTag line = false := by
  obtain ⟨rest, shape | shape, -⟩ := description?_eq_some_iff.mp describes <;>
    rw [isTag, shape] <;> rfl

-----------------------------------------------------------------------------------------
-- Reading line by line
-----------------------------------------------------------------------------------------

variable {file name : Text} {before rest : List Text}

theorem readTags_cons (tag : isTag line = false)
    : readTags file before (line :: rest) = readTags file (before ++ [line]) rest := by
  simp [readTags, tag]

theorem readBody_cons_blank (blank : isBlankLine line = true)
    : readBody file name before (line :: rest) = readBody file name (before ++ [line]) rest := by
  simp [readBody, blank]

theorem readBody_cons (solid : isBlankLine line = false)
    : readBody file name before (line :: rest)
      = match description? line with
        | some description => .ok ⟨name, description, stepsOf rest⟩
        | none => .error (headingFault file name (before.length + 1) line) := by
  simp [readBody, solid]

theorem stepsOf_cons_tag (tag : Text.startsWith (Text.trim line) ['@'] = true)
    : stepsOf (line :: rest) = [] := by
  simp [stepsOf, tag]

theorem stepsOf_cons (other : Text.startsWith (Text.trim line) ['@'] = false)
    : stepsOf (line :: rest)
      = (if isStepLine (Text.trim line) then [line] else []) ++ stepsOf rest := by
  simp only [stepsOf, List.takeWhile_cons, other, Bool.not_false, if_true, List.filter_cons]
  split <;> rfl

/-- On a tag the name is read, or the tag is at fault. -/
theorem atTag_eq (tag : isTag line = true) (number : Nat)
    : Reading.atTag file number (Text.trim line)
      = match name? line with
        | some name => .ok (.heading name)
        | none => .error (.invalidName file number (Text.trim line)) := by
  rw [Reading.atTag, name?]
  cases written : taggedName? (Text.trim line) with
  | none => simp [taggedName?_eq_none_iff.mp written] at tag
  | some written => rfl

/-- On a line that is not blank a description is read, or the line is at fault. -/
theorem atHeading_eq (solid : isBlankLine line = false) (number : Nat)
    : Reading.atHeading file name number (Text.trim line)
      = match description? line with
        | some description => .ok (.collecting ⟨name, description, []⟩)
        | none => .error (headingFault file name number line) := by
  have nonempty : (Text.trim line).isEmpty = false := solid
  rw [Reading.atHeading, nonempty, if_neg Bool.false_ne_true]
  cases outline : isOutline line with
  | true =>
    rw [description?_of_isOutline outline, headingFault, outline]
    rw [isOutline] at outline
    rw [if_pos outline, if_pos rfl]
  | false =>
    rw [headingFault, outline, description?]
    rw [isOutline] at outline
    rw [outline, if_neg Bool.false_ne_true, if_neg Bool.false_ne_true]
    split
    · next found => rw [found]; rfl
    · next missing => rw [missing]; rfl

/-- A tag of any kind ends a group, and is then read as outside of one. -/
theorem readFrom_collecting_tag (tag : Text.startsWith (Text.trim line) ['@'] = true)
    (group : StepGroup) (number : Nat)
    : readFrom file (.collecting group) number (line :: rest)
      = (readFrom file .seeking number (line :: rest)).map (group :: ·) := by
  simp only [readFrom, tag, if_true]
  split <;> rfl

/-- Reading on from a state comes to reading tag by tag: outside a group from the next tag on, behind
a tag with the group that the lines describe first, and inside a group with its remaining steps.
-/
theorem readFrom_eq (before lines : List Text)
    : readFrom file .seeking (before.length + 1) lines = readTags file before lines
      ∧ (∀ name, readFrom file (.heading name) (before.length + 1) lines
        = (readBody file name before lines).bind fun group =>
            (readTags file before lines).map (group :: ·))
      ∧ ∀ group, readFrom file (.collecting group) (before.length + 1) lines
        = (readTags file before lines).map
            ({ group with steps := group.steps ++ stepsOf lines } :: ·) := by
  -- the states are treated together, since each line may lead from any of them to another
  induction lines generalizing before with
  | nil => simp [readFrom, readTags, readBody, stepsOf, Except.map, Except.bind]
  | cons line rest ih =>
    have next : before.length + 1 + 1 = (before ++ [line]).length + 1 := by simp
    obtain ⟨seeking, heading, collecting⟩ := ih (before ++ [line])
    have atSeeking : readFrom file .seeking (before.length + 1) (line :: rest)
        = readTags file before (line :: rest) := by
      cases tag : isTag line with
      | false =>
        have untagged : taggedName? (Text.trim line) = none := taggedName?_eq_none_iff.mpr tag
        rw [readTags_cons tag, ← seeking, readFrom, Reading.atTag, untagged, next]
      | true =>
        rw [readTags, if_pos tag, readTag, readFrom, atTag_eq tag]
        cases name? line with
        | none => rfl
        | some name => exact next ▸ heading name
    refine ⟨atSeeking, fun name => ?_, fun group => ?_⟩
    · -- behind a tag, a blank line changes nothing and any other decides
      cases blank : isBlankLine line with
      | true =>
        have empty : (Text.trim line).isEmpty = true := blank
        rw [readBody_cons_blank blank, readTags_cons (isTag_of_isBlankLine blank), ← heading,
          readFrom, Reading.atHeading, empty, if_pos rfl, next]
      | false =>
        rw [readBody_cons blank, readFrom, atHeading_eq blank]
        cases described : description? line with
        | none => rfl
        | some description =>
          rw [readTags_cons (isTag_of_description? described)]
          simp only [next, collecting]
          rfl
    · -- inside a group, a tag of any kind is read as outside of one
      cases tag : Text.startsWith (Text.trim line) ['@'] with
      | true => rw [readFrom_collecting_tag tag, atSeeking, stepsOf_cons_tag tag, List.append_nil]
      | false =>
        have noTag : isTag line = false := by
          rw [← Bool.not_eq_true]
          exact fun isTag => by simp [startsWith_of_isTag isTag] at tag
        rw [readTags_cons noTag, stepsOf_cons tag]
        simp only [readFrom, tag, Bool.false_eq_true, if_false, next, collecting]
        split <;> simp

-----------------------------------------------------------------------------------------
-- Declared groups
-----------------------------------------------------------------------------------------

theorem readBody_eq_ok_iff {lines : List Text} {group : StepGroup}
    : readBody file name before lines = .ok group
      ↔ name = group.name ∧ ∃ line after, lines.dropWhile isBlankLine = line :: after
        ∧ Describes line group.description ∧ group.steps = stepsOf after := by
  rw [readBody]
  cases lines.dropWhile isBlankLine with
  | nil => simp
  | cons line after =>
    dsimp only
    constructor
    · intro read
      split at read
      · next description described =>
        cases read
        exact ⟨rfl, line, after, rfl, description?_eq_some_iff.mp described, rfl⟩
      · cases read
    · rintro ⟨rfl, _, _, ⟨rfl, rfl⟩, described, steps⟩
      simp only [description?_eq_some_iff.mpr described, ← steps]

theorem readTag_eq_ok_iff {group : StepGroup}
    : readTag file before line rest = .ok group ↔ Declares line rest group := by
  rw [readTag]
  constructor
  · intro read
    split at read
    · next name named =>
      obtain ⟨rfl, described⟩ := readBody_eq_ok_iff.mp read
      exact ⟨name?_eq_some_iff.mp named, described⟩
    · cases read
  · rintro ⟨named, described⟩
    rw [name?_eq_some_iff.mpr named]
    exact readBody_eq_ok_iff.mpr ⟨rfl, described⟩

theorem readTags_cons_tag_eq_ok_iff {groups : List StepGroup} (tag : isTag line = true)
    : readTags file before (line :: rest) = .ok groups
      ↔ ∃ group others, readTag file before line rest = .ok group
        ∧ readTags file (before ++ [line]) rest = .ok others ∧ groups = group :: others := by
  rw [readTags, if_pos tag]
  cases readTag file before line rest with
  | error => simp [Except.bind]
  | ok group =>
    cases readTags file (before ++ [line]) rest with
    | error => simp [Except.bind, Except.map]
    | ok others => simp [Except.bind, Except.map, eq_comm]

theorem readTags_eq_ok_iff {lines : List Text} {groups : List StepGroup}
    : readTags file before lines = .ok groups
      ↔ List.Forall₂ (fun part group => Declares part.1 part.2 group) (tagged lines) groups := by
  induction lines generalizing before groups with
  | nil => simp [readTags, tagged, eq_comm]
  | cons line rest ih =>
    cases tag : isTag line with
    | false => rw [readTags_cons tag, ih, tagged, tag, if_neg Bool.false_ne_true]
    | true =>
      rw [readTags_cons_tag_eq_ok_iff tag, tagged, if_pos tag, List.forall₂_cons_left_iff]
      simp only [readTag_eq_ok_iff, ih]

/-- Names carry the suffix behind characters that a group name may hold, at least one. -/
theorem Names.shape {tag name : Text} (names : Names tag name)
    : ∃ base, base ≠ [] ∧ (∀ c ∈ base, isNameChar c = true) ∧ name = base ++ nameSuffix := by
  obtain ⟨rest, -, full⟩ := names
  simp only [fullName?, Option.ite_none_right_eq_some, Bool.and_eq_true, Bool.not_eq_true',
    List.isEmpty_eq_false_iff, List.all_eq_true, Option.some.injEq] at full
  obtain ⟨⟨nonempty, all⟩, rfl⟩ := full
  exact ⟨_, nonempty, all, rfl⟩

/-- What is found among the leading elements that fulfil a condition stands behind such ones only. -/
theorem any_takeWhile_iff {α : Type} {leads found : α → Bool} {list : List α}
    : (list.takeWhile leads).any found = true
      ↔ ∃ before a after, list = before ++ a :: after ∧ (∀ b ∈ before, leads b = true)
        ∧ leads a = true ∧ found a = true := by
  induction list with
  | nil => simp
  | cons a rest ih =>
    simp only [List.cons_eq_append_iff]
    cases first : leads a with
    | false =>
      refine iff_of_false (by simp [first]) ?_
      rintro ⟨_, b, after, ⟨rfl, same⟩ | ⟨before, rfl, rfl⟩, leading, here, -⟩
      · cases same
        simp [first] at here
      · simpa [first] using leading a (by simp)
    | true =>
      simp only [List.takeWhile_cons, first, if_true, List.any_cons, Bool.or_eq_true, ih]
      constructor
      · rintro (here | ⟨before, b, after, rfl, leading, there⟩)
        · exact ⟨[], a, rest, .inl ⟨rfl, rfl⟩, by simp, first, here⟩
        · exact ⟨a :: before, b, after, .inr ⟨before, rfl, rfl⟩, by simpa [first], there⟩
      · rintro ⟨_, b, after, ⟨rfl, same⟩ | ⟨before, rfl, rfl⟩, leading, there⟩
        · cases same
          exact .inl there.2
        · exact .inr ⟨before, b, after, rfl, fun c mem => leading c (by simp [mem]), there⟩

theorem exists_declares {parts : List (Text × List Text)} {groups : List StepGroup}
    {group : StepGroup}
    (declared : List.Forall₂ (fun part group => Declares part.1 part.2 group) parts groups)
    (mem : group ∈ groups) : ∃ tag rest, Declares tag rest group := by
  induction declared with
  | nil => cases mem
  | cons declares _ ih =>
    rcases List.mem_cons.mp mem with rfl | mem
    · exact ⟨_, _, declares⟩
    · exact ih mem

theorem declaresGroups_iff {document : Text}
    : declaresGroups document = true ↔ IsMarked document := by
  simp only [declaresGroups, List.takeWhile_map, List.any_map, any_takeWhile_iff, IsMarked,
    Function.comp_apply, Bool.and_eq_true, List.contains_iff_mem, Bool.not_eq_true',
    ← Bool.not_eq_true]
  refine exists_congr fun before => exists_congr fun line => exists_congr fun after => ?_
  refine and_congr_right fun _ => and_congr_right fun _ => and_iff_right_of_imp ?_
  rintro ⟨tag, -⟩ feature
  -- a line cannot begin both with a tag and with the feature keyword
  obtain ⟨rest, shape⟩ := Text.startsWith_iff.mp tag
  rw [← shape] at feature
  cases feature

/-- A document with the marker is read tag by tag. -/
theorem ofDocument_of_isMarked {document : Text} (marked : IsMarked document)
    : ofDocument document file = readTags file [] (Text.lines document) := by
  rw [ofDocument, if_pos (declaresGroups_iff.mpr marked)]
  exact (readFrom_eq [] (Text.lines document)).1

/-- Reading a document gives exactly the groups it declares, in order. With the marker before the feature
line, reading succeeds with some groups exactly when these are what its tags declare one by one; every
name then has the shape of a group name. Without the marker there are no groups.
-/
theorem ofDocument_eq_ok_iff_declared (document file : Text) (groups : List StepGroup)
    : (IsMarked document →
        (ofDocument document file = .ok groups
          ↔ List.Forall₂ (fun part group => Declares part.1 part.2 group)
              (tagged (Text.lines document)) groups))
      ∧ (¬ IsMarked document → ofDocument document file = .ok [])
      ∧ (ofDocument document file = .ok groups → ∀ group ∈ groups,
          ∃ base, base ≠ [] ∧ (∀ c ∈ base, isNameChar c = true)
            ∧ group.name = base ++ nameSuffix) := by
  have read (marked : IsMarked document) : ofDocument document file = .ok groups
      ↔ List.Forall₂ (fun part group => Declares part.1 part.2 group)
          (tagged (Text.lines document)) groups := by
    rw [ofDocument_of_isMarked marked, readTags_eq_ok_iff]
  have unread (unmarked : ¬ IsMarked document) : ofDocument document file = .ok [] :=
    if_neg (mt declaresGroups_iff.mp unmarked)
  refine ⟨read, unread, fun some group mem => ?_⟩
  by_cases marked : IsMarked document
  · obtain ⟨tag, rest, declares⟩ := exists_declares ((read marked).mp some) mem
    exact declares.named.shape
  · rw [unread marked] at some
    cases some
    cases mem

/-- A document with two groups: other tags end a group, blank lines may stand before a description, and a
line that is no step is passed over.
-/
def twoGroups : Text :=
  ("@StepGroup\nFeature: Shared\n\n@StepGroup:Login\nScenario: A user logs in\n"
    ++ "  Given a user\n  # here\n  When they log in\n@slow\nGiven nothing\n"
    ++ "@StepGroup:Leave.sg now\n\nExample: A user leaves\n* they leave\n").toList

theorem ofDocument_eq_ok_iff_declared_two_groups
    : IsMarked twoGroups ∧ ∃ login leave,
        ofDocument twoGroups [] = .ok [login, leave]
        ∧ login.steps = ["  Given a user".toList, "  When they log in".toList]
        ∧ leave.name = "Leave.sg".toList
        ∧ List.Forall₂ (fun part group => Declares part.1 part.2 group)
            (tagged (Text.lines twoGroups)) [login, leave] := by
  have marked : IsMarked twoGroups := declaresGroups_iff.mp (by decide +kernel)
  have found : ofDocument twoGroups [] = .ok
      [⟨"Login.sg".toList, "A user logs in".toList,
          ["  Given a user".toList, "  When they log in".toList]⟩,
        ⟨"Leave.sg".toList, "A user leaves".toList, ["* they leave".toList]⟩] := by
    decide +kernel
  exact ⟨marked, _, _, found, rfl, rfl,
    ((ofDocument_eq_ok_iff_declared twoGroups [] _).1 marked).mp found⟩

end FeaturePress.StepGroup
