import FeaturePress.Feature.SourceTag
import FeaturePress.Proofs.Text.Blank
import FeaturePress.Proofs.Text.Lines

/-! What tagging scenarios does to a text. Afterwards every scenario has tags in front of it, the lines that were
there are as before, and tagging once more finds nothing to do.
-/

namespace FeaturePress

namespace Text

/-- A text is not blank if its trimmed form is told apart from the empty one. -/
theorem isBlankText_of_trim {text : Text} {p : Text → Bool} (empty : p [] = false)
    (holds : p (trim text) = true)
    : isBlankText text = false := by
  rw [Bool.eq_false_iff]
  intro blank
  have nothing : trim text = [] := by
    rw [trim, trimStart, List.dropWhile_eq_nil_iff.mpr (List.all_eq_true.mp blank)]
    rfl
  rw [nothing, empty] at holds
  cases holds

end Text

namespace SourceTag

variable {path line : Text} {rest lines : List Text} {tagged : Bool}

-----------------------------------------------------------------------------------------
-- Kinds of lines
-----------------------------------------------------------------------------------------

theorem isBlankText_of_isScenario (scenario : isScenario line = true) : Text.isBlankText line = false :=
  Text.isBlankText_of_trim (p := fun trimmed => scenarioKeywords.any (Text.startsWith trimmed)) rfl scenario

theorem isBlankText_of_isTagLine (tags : isTagLine line = true) : Text.isBlankText line = false :=
  Text.isBlankText_of_trim (p := (Text.startsWith · ['@'])) rfl tags

-----------------------------------------------------------------------------------------
-- Tags
-----------------------------------------------------------------------------------------

/-- A tag is one word. -/
theorem isBlank_of_mem_tag (path : Text) : ∀ c ∈ tag path, Text.isBlank c = false := by
  have lead : "@source:".toList.all (!Text.isBlank ·) = true := rfl
  refine List.forall_mem_append.mpr ⟨fun c member => ?_, fun c member => ?_⟩
  · simpa using List.all_eq_true.mp lead c member
  · obtain ⟨d, -, rfl⟩ := List.mem_map.mp member
    split
    · rfl
    · next solid => simpa using solid

/-- The line that is put above a scenario line. -/
def addedLine (path scenario : Text) : Text :=
  Text.indentation scenario ++ tag path

theorem trim_addedLine (path scenario : Text)
    : ∃ word, Text.trim (addedLine path scenario) = '@' :: word :=
  ⟨_, Text.trim_append_cons (fun _ => Text.isBlank_of_mem_indentation) _ rfl⟩

theorem isTagLine_addedLine (path scenario : Text) : isTagLine (addedLine path scenario) = true := by
  obtain ⟨word, trimmed⟩ := trim_addedLine path scenario
  rw [isTagLine, trimmed]
  rfl

theorem isScenario_addedLine (path scenario : Text) : isScenario (addedLine path scenario) = false := by
  obtain ⟨word, trimmed⟩ := trim_addedLine path scenario
  rw [isScenario, trimmed]
  rfl

theorem unbroken_addedLine (path : Text) {scenario : Text} (unbroken : '\n' ∉ scenario)
    : '\n' ∉ addedLine path scenario := by
  refine fun broken => (List.mem_append.mp broken).elim ?_ ?_
  · exact fun member => unbroken (Text.indentation_subset scenario member)
  · exact fun member => Bool.false_ne_true (isBlank_of_mem_tag path '\n' member).symm

-----------------------------------------------------------------------------------------
-- The state between lines
-----------------------------------------------------------------------------------------

/-- Whether tags hold behind a line: a blank line changes nothing, any other decides. -/
def tagsOn (tagged : Bool) (line : Text) : Bool :=
  if Text.isBlankText line then tagged else isTagLine line

theorem tagsOn_of_isTagLine (tagged : Bool) (tags : isTagLine line = true) : tagsOn tagged line = true := by
  rw [tagsOn, isBlankText_of_isTagLine tags]
  exact tags

/-- Behind a scenario line it does not matter what was in front of it. -/
theorem tagsOn_of_isScenario (scenario : isScenario line = true) (tagged other : Bool)
    : tagsOn tagged line = tagsOn other line := by
  simp only [tagsOn, isBlankText_of_isScenario scenario, Bool.false_eq_true, if_false]

theorem tagLines_cons_added (untagged : (!tagged && isScenario line) = true)
    : tagLines path tagged (line :: rest)
      = addedLine path line :: line :: tagLines path (tagsOn tagged line) rest :=
  if_pos untagged

theorem tagLines_cons_kept (other : (!tagged && isScenario line) = false)
    : tagLines path tagged (line :: rest) = line :: tagLines path (tagsOn tagged line) rest :=
  if_neg (by simp [other])

/-- The last of some lines that is not blank. -/
def lastSolid? (lines : List Text) : Option Text :=
  (lines.filter (!Text.isBlankText ·)).getLast?

/-- The state behind some lines is told by the last of them that is not blank, if there is one. -/
theorem foldl_tagsOn (tagged : Bool) (lines : List Text)
    : lines.foldl tagsOn tagged = ((lastSolid? lines).map isTagLine).getD tagged := by
  induction lines generalizing tagged with
  | nil => rfl
  | cons line rest ih =>
      rw [List.foldl_cons, ih, tagsOn, lastSolid?, lastSolid?, List.filter_cons]
      cases blank : Text.isBlankText line with
      | true => rfl
      | false =>
          rw [Bool.not_false, if_pos rfl, List.getLast?_cons]
          cases (rest.filter (!Text.isBlankText ·)).getLast? <;> rfl

-----------------------------------------------------------------------------------------
-- Scenarios behind tags
-----------------------------------------------------------------------------------------

/-- Tags hold in front of every scenario line, where `tagged` tells whether they do in front of all lines. -/
def Covered (tagged : Bool) (lines : List Text) : Prop :=
  ∀ before line after, lines = before ++ line :: after → isScenario line = true
    → before.foldl tagsOn tagged = true

theorem covered_nil (tagged : Bool) : Covered tagged [] := by
  intro before line after shape
  cases List.append_ne_nil_of_right_ne_nil before (List.cons_ne_nil line after) shape.symm

theorem covered_cons
    : Covered tagged (line :: rest)
      ↔ (isScenario line = true → tagged = true) ∧ Covered (tagsOn tagged line) rest := by
  constructor
  · refine fun covered => ⟨covered [] line rest rfl, fun before other after shape => ?_⟩
    exact covered (line :: before) other after (by rw [shape, List.cons_append])
  · rintro ⟨here, behind⟩ (_ | ⟨first, before⟩) other after shape scenario
    · obtain ⟨rfl, rfl⟩ := List.cons.inj shape
      exact here scenario
    · obtain ⟨rfl, rfl⟩ := List.cons.inj shape
      exact behind before other after rfl scenario

/-- The lines come out with tags in front of every scenario line, by induction on them: an added line holds tags,
and whatever was in front of its scenario line does not matter behind it.
-/
theorem covered_tagLines (path : Text) (tagged : Bool) (lines : List Text)
    : Covered tagged (tagLines path tagged lines) := by
  induction lines generalizing tagged with
  | nil => exact covered_nil tagged
  | cons line rest ih =>
      cases untagged : !tagged && isScenario line with
      | false =>
          rw [tagLines_cons_kept untagged, covered_cons]
          refine ⟨fun scenario => ?_, ih _⟩
          simpa [scenario] using untagged
      | true =>
          have scenario : isScenario line = true := (Bool.and_eq_true_iff.mp untagged).2
          rw [tagLines_cons_added untagged, covered_cons, covered_cons,
            tagsOn_of_isTagLine tagged (isTagLine_addedLine path line),
            tagsOn_of_isScenario scenario true tagged, isScenario_addedLine]
          exact ⟨fun holds => (Bool.false_ne_true holds).elim, fun _ => rfl, ih _⟩

/-- Where tags hold in front of every scenario line, no line is added. -/
theorem tagLines_of_covered (path : Text) (covered : Covered tagged lines)
    : tagLines path tagged lines = lines := by
  induction lines generalizing tagged with
  | nil => rfl
  | cons line rest ih =>
      obtain ⟨here, behind⟩ := covered_cons.mp covered
      have other : (!tagged && isScenario line) = false := by
        cases scenario : isScenario line with
        | false => rw [Bool.and_false]
        | true => rw [here scenario, Bool.not_true, Bool.false_and]
      rw [tagLines_cons_kept other, ih behind]

-----------------------------------------------------------------------------------------
-- Added lines
-----------------------------------------------------------------------------------------

/-- A line of a text with tags: one that was there, or one that was added. -/
structure MarkedLine where
  text : Text
  added : Bool

namespace MarkedLine

/-- The lines that were there. -/
def kept (lines : List MarkedLine) : List Text :=
  (lines.filter (!·.added)).map (·.text)

/-- An added line stands directly above a scenario line that was there, at its indentation, and holds one word. -/
def Fits (line : MarkedLine) (after : List MarkedLine) : Prop :=
  line.added = true → ∃ scenario rest word, after = ⟨scenario, false⟩ :: rest ∧ isScenario scenario = true
    ∧ line.text = Text.indentation scenario ++ word ∧ word ≠ [] ∧ ∀ c ∈ word, Text.isBlank c = false

/-- Every added line fits where it stands. -/
def AllFit (lines : List MarkedLine) : Prop :=
  ∀ line after, line :: after <:+ lines → line.Fits after

theorem fits_kept (text : Text) (after : List MarkedLine) : Fits ⟨text, false⟩ after :=
  fun added => (Bool.false_ne_true added).elim

theorem fits_addedLine (path : Text) (scenario : isScenario line = true) (rest : List MarkedLine)
    : Fits ⟨addedLine path line, true⟩ (⟨line, false⟩ :: rest) :=
  fun _ => ⟨line, rest, tag path, rfl, scenario, rfl, List.cons_ne_nil _ _, isBlank_of_mem_tag path⟩

theorem allFit_nil : AllFit [] := by
  intro line after suffix
  cases List.suffix_nil.mp suffix

theorem AllFit.cons {first : MarkedLine} {rest : List MarkedLine} (allFit : AllFit rest)
    (fits : first.Fits rest)
    : AllFit (first :: rest) := by
  intro line after suffix
  rcases List.suffix_cons_iff.mp suffix with same | behind
  · obtain ⟨rfl, rfl⟩ := List.cons.inj same
    exact fits
  · exact allFit line after behind

end MarkedLine

/-- Tagging lines adds some that fit where they stand, and keeps all others. -/
theorem exists_markedLines (path : Text) (tagged : Bool) (lines : List Text)
    : ∃ marked : List MarkedLine, tagLines path tagged lines = marked.map (·.text)
      ∧ MarkedLine.kept marked = lines ∧ MarkedLine.AllFit marked := by
  induction lines generalizing tagged with
  | nil => exact ⟨[], rfl, rfl, MarkedLine.allFit_nil⟩
  | cons line rest ih =>
      obtain ⟨marked, shape, kept, allFit⟩ := ih (tagsOn tagged line)
      have withLine := allFit.cons (MarkedLine.fits_kept line marked)
      cases untagged : !tagged && isScenario line with
      | false =>
          refine ⟨⟨line, false⟩ :: marked, ?_, congrArg (line :: ·) kept, withLine⟩
          rw [tagLines_cons_kept untagged, shape, List.map_cons]
      | true =>
          have scenario : isScenario line = true := (Bool.and_eq_true_iff.mp untagged).2
          refine ⟨⟨addedLine path line, true⟩ :: ⟨line, false⟩ :: marked, ?_, congrArg (line :: ·) kept,
            withLine.cons (MarkedLine.fits_addedLine path scenario marked)⟩
          rw [tagLines_cons_added untagged, shape, List.map_cons, List.map_cons]

-----------------------------------------------------------------------------------------
-- Texts
-----------------------------------------------------------------------------------------

theorem unbroken_of_mem_tagLines (unbroken : ∀ line ∈ lines, '\n' ∉ line)
    : ∀ line ∈ tagLines path tagged lines, '\n' ∉ line := by
  induction lines generalizing tagged with
  | nil => exact unbroken
  | cons line rest ih =>
      obtain ⟨here, others⟩ := List.forall_mem_cons.mp unbroken
      cases untagged : !tagged && isScenario line with
      | false =>
          rw [tagLines_cons_kept untagged]
          exact List.forall_mem_cons.mpr ⟨here, ih others⟩
      | true =>
          rw [tagLines_cons_added untagged]
          exact List.forall_mem_cons.mpr
            ⟨unbroken_addedLine path here, List.forall_mem_cons.mpr ⟨here, ih others⟩⟩

theorem tagLines_ne_nil (nonempty : lines ≠ []) : tagLines path tagged lines ≠ [] := by
  obtain ⟨line, rest, rfl⟩ := List.exists_cons_of_ne_nil nonempty
  rw [tagLines]
  split <;> exact List.cons_ne_nil _ _

/-- The lines of a text with tags are the lines of the text with tags. -/
theorem splitLines_tagScenarios (path text : Text)
    : Text.splitLines (tagScenarios path text) = tagLines path false (Text.splitLines text) :=
  Text.splitLines_joinLines (tagLines_ne_nil (Text.splitLines_ne_nil text))
    (unbroken_of_mem_tagLines fun _ => Text.unbroken_of_mem_splitLines)

/-- Behind tagging, the line before a scenario line, blank ones apart, holds tags. The lines that were there are
all kept, and each added one stands directly above a scenario line, at its indentation, and holds one word. And
tagging again, for whatever source, changes nothing.
-/
theorem tagScenarios_complete_additive_stable (path text : Text)
    : (∀ before line after, Text.splitLines (tagScenarios path text) = before ++ line :: after
        → isScenario line = true → ∃ tags, lastSolid? before = some tags ∧ isTagLine tags = true)
      ∧ (∃ marked : List MarkedLine, Text.splitLines (tagScenarios path text) = marked.map (·.text)
        ∧ Text.joinLines (MarkedLine.kept marked) = text ∧ MarkedLine.AllFit marked)
      ∧ ∀ other, tagScenarios other (tagScenarios path text) = tagScenarios path text := by
  have covered : Covered false (Text.splitLines (tagScenarios path text)) := by
    rw [splitLines_tagScenarios]
    exact covered_tagLines path false _
  refine ⟨fun before line after shape scenario => ?_, ?_, fun other => ?_⟩
  · have holds := covered before line after shape scenario
    rw [foldl_tagsOn] at holds
    cases last : lastSolid? before with
    | none => simp [last] at holds
    | some tags => exact ⟨tags, rfl, by simpa [last] using holds⟩
  · obtain ⟨marked, shape, kept, allFit⟩ := exists_markedLines path false (Text.splitLines text)
    refine ⟨marked, (splitLines_tagScenarios path text).trans shape, ?_, allFit⟩
    rw [kept, Text.joinLines_splitLines]
  · rw [tagScenarios, tagLines_of_covered other covered, Text.joinLines_splitLines]

example
    : tagScenarios "my shop.feature".toList "@ui\n\n Scenario: a\n Example: b".toList
      = "@ui\n\n Scenario: a\n @source:my_shop.feature\n Example: b".toList := by
  decide

end SourceTag

end FeaturePress
