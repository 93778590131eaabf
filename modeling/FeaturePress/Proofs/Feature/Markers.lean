import FeaturePress.Feature.SmartMarker
import FeaturePress.Proofs.Text.Blank
import FeaturePress.Proofs.Text.Lines
import FeaturePress.Proofs.Text.Marks

/-! Markers and lines. A marker is closed on its line or is none, so a text is rewritten line by line:
what stands on a line, closed or not, changes no other line, and outside of closed markers all characters
are kept.
-/

namespace FeaturePress

namespace Text

-----------------------------------------------------------------------------------------
-- First occurrences
-----------------------------------------------------------------------------------------

/-- Whether a mark stands there for the first time does not depend on what follows it. -/
theorem FirstBetween.before {mark before tail : Text} (first : FirstBetween mark before tail) (other : Text)
    : FirstBetween mark before other := by
  intro earlier occurs
  by_contra sooner
  refine sooner (first earlier ?_)
  have within : earlier ++ mark <+: before ++ mark := by
    refine List.prefix_of_prefix_length_le occurs (List.prefix_append _ _) ?_
    simp only [List.length_append]
    omega
  exact within.trans (List.prefix_append _ _)

/-- A text in which a mark occurs has a first one, at that place or before it. -/
theorem exists_firstBetween (mark before tail : Text)
    : ∃ lead behind, before ++ mark ++ tail = lead ++ mark ++ behind ∧ FirstBetween mark lead behind
      ∧ lead <+: before := by
  induction before with
  | nil => exact ⟨[], tail, rfl, firstBetween_nil, List.prefix_refl _⟩
  | cons c before ih =>
      by_cases here : mark <+: c :: (before ++ mark ++ tail)
      · obtain ⟨behind, shape⟩ := here
        exact ⟨[], behind, by simpa using shape.symm, firstBetween_nil, List.nil_prefix⟩
      · obtain ⟨lead, behind, shape, first, within⟩ := ih
        refine ⟨c :: lead, behind, congrArg (c :: ·) shape, firstBetween_cons.mpr ⟨?_, first⟩,
          List.cons_prefix_cons.mpr ⟨rfl, within⟩⟩
        rwa [← shape]

-----------------------------------------------------------------------------------------
-- Marks that do not reach over line ends
-----------------------------------------------------------------------------------------

/-- A rule for marks that looks at the line only, and whose marks end on it. -/
structure OnLine {α : Type} (mark? : Text → Option (α × Nat)) : Prop where
  cut : ∀ first second, mark? (first ++ '\n' :: second) = mark? first
  within : ∀ text value more, mark? text = some (value, more) → more < text.length

/-- The pieces of a text with a line feed are those before it and those behind it, by induction on the length
of what stands before it.
-/
theorem OnLine.pieces_append {α : Type} {mark? : Text → Option (α × Nat)} (onLine : OnLine mark?)
    (first second : Text)
    : pieces mark? (first ++ '\n' :: second) = pieces mark? first ++ .char '\n' :: pieces mark? second := by
  induction length : first.length using Nat.strongRecOn generalizing first with
  | ind n ih =>
      subst length
      cases first with
      | nil =>
          have nothing : mark? [] = none := Option.eq_none_iff_forall_ne_some.mpr fun ⟨value, more⟩ found =>
            Nat.not_lt_zero more (onLine.within [] value more found)
          have feed : mark? ('\n' :: second) = none := (onLine.cut [] second).trans nothing
          exact pieces_cons_of_none feed
      | cons c rest =>
          have cut : mark? (c :: (rest ++ '\n' :: second)) = mark? (c :: rest) := onLine.cut (c :: rest) second
          cases found : mark? (c :: rest) with
          | none =>
              rw [List.cons_append, pieces_cons_of_none (cut.trans found), pieces_cons_of_none found,
                ih _ (Nat.lt_succ_self _) rest rfl]
              rfl
          | some mark =>
              obtain ⟨value, more⟩ := mark
              have within : more ≤ rest.length := Nat.le_of_lt_succ (onLine.within _ _ _ found)
              have shorter : (rest.drop more).length < (c :: rest).length := by
                rw [List.length_drop, List.length_cons]
                omega
              rw [List.cons_append, pieces_cons_of_mark (cut.trans found), pieces_cons_of_mark found,
                List.drop_append_of_le_length within, ih _ shorter _ rfl]
              rfl

end Text

namespace SmartMarker

variable {c : Char} {expression text line rest : Text} {found others : List (Text.Piece Text)}

-----------------------------------------------------------------------------------------
-- Markers that are closed on their line
-----------------------------------------------------------------------------------------

/-- A marker as it is written. -/
def marker (expression : Text) : Text :=
  opening ++ (expression ++ closing)

theorem closing_ne_nil : closing ≠ [] := by decide

theorem length_marker (expression : Text)
    : (marker expression).length = opening.length + expression.length + closing.length := by
  rw [marker, List.length_append, List.length_append, Nat.add_assoc]

theorem length_marker_pos (expression : Text) : 0 < (marker expression).length := by
  have positive : 0 < opening.length := by decide
  rw [length_marker]
  omega

theorem marker_append_ne_nil (expression rest : Text) : marker expression ++ rest ≠ [] :=
  List.append_ne_nil_of_left_ne_nil (List.ne_nil_of_length_pos (length_marker_pos expression)) rest

theorem unbroken_marker (unbroken : '\n' ∉ expression) : '\n' ∉ marker expression := by
  have inOpening : '\n' ∉ opening := by decide
  have inClosing : '\n' ∉ closing := by decide
  rw [marker, List.mem_append, List.mem_append, not_or, not_or]
  exact ⟨inOpening, unbroken, inClosing⟩

/-- A marker begins a text where its expression ends with the first closing, on the same line. -/
theorem marker?_eq_some_iff {count : Nat}
    : marker? text = some (expression, count)
      ↔ ∃ rest, text = marker expression ++ rest ∧ '\n' ∉ expression
        ∧ Text.FirstBetween closing expression rest ∧ count + 1 = (marker expression).length := by
  have positive := length_marker_pos expression
  rw [length_marker] at positive
  rw [marker?, Option.filter_eq_some_iff, Text.enclosed?, length_marker]
  constructor
  · rintro ⟨begins, unbroken⟩
    split at begins
    · cases begins
    · next body opened =>
        obtain ⟨⟨_, rest⟩, cut, made⟩ := Option.map_eq_some_iff.mp begins
        cases made
        obtain ⟨rfl, first⟩ := (Text.cut?_eq_some_iff closing_ne_nil).mp cut
        obtain rfl := Text.after?_eq_some_iff.mp opened
        refine ⟨rest, by simp [marker], by simpa using unbroken, first, ?_⟩
        omega
  · rintro ⟨rest, rfl, unbroken, first, count⟩
    have opened : Text.after? opening (marker expression ++ rest) = some (expression ++ closing ++ rest) :=
      Text.after?_eq_some_iff.mpr (by simp [marker])
    have cut : Text.cut? closing (expression ++ closing ++ rest) = some (expression, rest) :=
      (Text.cut?_eq_some_iff closing_ne_nil).mpr ⟨rfl, first⟩
    refine ⟨?_, by simpa using unbroken⟩
    simp only [opened, cut, Option.map_some, Option.some.injEq, Prod.mk.injEq, true_and]
    omega

/-- Where an opening is followed on its line by a closing, a marker begins. -/
theorem exists_marker? (unbroken : '\n' ∉ expression) (rest : Text)
    : ∃ found, marker? (marker expression ++ rest) = some found := by
  obtain ⟨lead, behind, shape, first, within⟩ := Text.exists_firstBetween closing expression rest
  refine ⟨(lead, (marker lead).length - 1), marker?_eq_some_iff.mpr
    ⟨behind, ?_, fun broken => unbroken (within.subset broken), first,
      Nat.sub_add_cancel (length_marker_pos lead)⟩⟩
  simpa [marker] using shape

theorem onLine_marker? : Text.OnLine marker? where
  cut := by
    refine fun first second => Option.ext fun ⟨expression, count⟩ => ?_
    rw [marker?_eq_some_iff, marker?_eq_some_iff]
    constructor
    · rintro ⟨rest, shape, unbroken, isFirst, length⟩
      obtain ⟨more, rfl, -⟩ := Text.exists_of_append_lineFeed (unbroken_marker unbroken) shape
      exact ⟨more, rfl, unbroken, isFirst.before more, length⟩
    · rintro ⟨rest, rfl, unbroken, isFirst, length⟩
      exact ⟨rest ++ '\n' :: second, List.append_assoc .., unbroken, isFirst.before _, length⟩
  within := by
    intro text expression count begins
    obtain ⟨rest, rfl, -, -, length⟩ := marker?_eq_some_iff.mp begins
    rw [List.length_append]
    omega

-----------------------------------------------------------------------------------------
-- Characters and markers
-----------------------------------------------------------------------------------------

/-- A text divides into markers, each closed on its line by the first closing, and the characters at which
none begins.
-/
inductive Divides : Text → List (Text.Piece Text) → Prop
  | nil : Divides [] []
  | char {c rest parts}
    (plain : ∀ expression later, '\n' ∉ expression → c :: rest ≠ marker expression ++ later)
    (divides : Divides rest parts)
    : Divides (c :: rest) (.char c :: parts)
  | mark {expression rest parts} (unbroken : '\n' ∉ expression)
    (first : Text.FirstBetween closing expression rest) (divides : Divides rest parts)
    : Divides (marker expression ++ rest) (.mark expression :: parts)

/-- The pieces of a text are what it divides into, by induction on its length. -/
theorem divides_pieces (text : Text) : Divides text (Text.pieces marker? text) := by
  induction length : text.length using Nat.strongRecOn generalizing text with
  | ind n ih =>
      subst length
      cases text with
      | nil => exact .nil
      | cons c rest =>
          cases begins : marker? (c :: rest) with
          | none =>
              rw [Text.pieces_cons_of_none begins]
              refine .char (fun expression later unbroken shape => ?_) (ih _ (Nat.lt_succ_self _) rest rfl)
              obtain ⟨found, isMarker⟩ := exists_marker? unbroken later
              rw [← shape, begins] at isMarker
              cases isMarker
          | some mark =>
              obtain ⟨expression, count⟩ := mark
              obtain ⟨later, shape, unbroken, first, size⟩ := marker?_eq_some_iff.mp begins
              have behind : rest.drop count = later := by
                have dropped := congrArg (List.drop (count + 1)) shape
                rwa [List.drop_succ_cons, size, List.drop_left] at dropped
              have shorter : later.length < (c :: rest).length := by
                rw [shape, List.length_append, ← size]
                omega
              rw [Text.pieces_cons_of_mark begins, behind, shape]
              exact .mark unbroken first (ih _ shorter later rfl)

/-- Expressions end with the first closing, so they are the same where the markers are. -/
theorem marker_append_inj {other more : Text} (first : Text.FirstBetween closing expression rest)
    (firstOther : Text.FirstBetween closing other more)
    (same : marker expression ++ rest = marker other ++ more)
    : expression = other ∧ rest = more := by
  have bodies : expression ++ closing ++ rest = other ++ closing ++ more := by
    simpa [marker] using same
  have cut := (Text.cut?_eq_some_iff closing_ne_nil).mpr ⟨bodies, firstOther⟩
  rw [(Text.cut?_eq_some_iff closing_ne_nil).mpr ⟨rfl, first⟩] at cut
  cases cut
  exact ⟨rfl, rfl⟩

/-- A text divides in one way. -/
theorem Divides.unique (divides : Divides text found) (again : Divides text others) : others = found := by
  induction divides generalizing others with
  | nil =>
      generalize shape : ([] : Text) = empty at again
      cases again with
      | nil => rfl
      | char => cases shape
      | mark => exact absurd shape.symm (marker_append_ne_nil _ _)
  | @char c rest parts plain _ ih =>
      generalize shape : c :: rest = whole at again
      cases again with
      | nil => cases shape
      | char _ again =>
          cases shape
          rw [ih again]
      | mark unbroken _ _ => exact absurd shape (plain _ _ unbroken)
  | @mark expression rest parts unbroken first _ ih =>
      generalize shape : marker expression ++ rest = whole at again
      cases again with
      | nil => exact absurd shape (marker_append_ne_nil _ _)
      | char plain _ => exact absurd shape.symm (plain _ _ unbroken)
      | mark _ firstOther again =>
          obtain ⟨rfl, rfl⟩ := marker_append_inj first firstOther shape
          rw [ih again]

-----------------------------------------------------------------------------------------
-- Lines
-----------------------------------------------------------------------------------------

theorem toComments_append (first second : Text)
    : toComments (first ++ '\n' :: second) = toComments first ++ '\n' :: toComments second := by
  rw [toComments, onLine_marker?.pieces_append, Text.writePieces_append]
  rfl

theorem unbroken_comment (unbroken : '\n' ∉ expression) : '\n' ∉ comment expression := by
  have begins : '\n' ∉ "/* smart: ".toList := by decide
  have ends : '\n' ∉ " */".toList := by decide
  intro broken
  rcases List.mem_append.mp broken with front | back
  · rcases List.mem_append.mp front with lead | inside
    · exact begins lead
    · exact unbroken (Text.trim_subset expression inside)
  · exact ends back

theorem Divides.unbroken_writePieces (divides : Divides text found) (unbroken : '\n' ∉ text)
    : '\n' ∉ Text.writePieces comment found := by
  induction divides with
  | nil => exact unbroken
  | char _ _ ih =>
      rw [List.mem_cons, not_or] at unbroken
      rw [Text.writePieces_char, List.mem_cons, not_or]
      exact ⟨unbroken.1, ih unbroken.2⟩
  | mark inExpression _ _ ih =>
      rw [Text.writePieces_mark, List.mem_append, not_or]
      exact ⟨unbroken_comment inExpression, ih fun broken => unbroken (List.mem_append_right _ broken)⟩

theorem unbroken_toComments (unbroken : '\n' ∉ line) : '\n' ∉ toComments line :=
  (divides_pieces line).unbroken_writePieces unbroken

theorem toComments_joinLines {lines : List Text} (nonempty : lines ≠ [])
    : toComments (Text.joinLines lines) = Text.joinLines (lines.map toComments) := by
  induction lines with
  | nil => exact absurd rfl nonempty
  | cons first lines ih =>
      cases lines with
      | nil =>
          rw [List.map_singleton, Text.joinLines, Text.joinLines, List.intercalate_singleton,
            List.intercalate_singleton]
      | cons second lines =>
          rw [Text.joinLines_cons_cons, toComments_append, ih (List.cons_ne_nil _ _), List.map_cons,
            List.map_cons, List.map_cons, Text.joinLines_cons_cons]

/-- The lines of a text with comments are those of the text, each with its comments. -/
theorem splitLines_toComments (text : Text)
    : Text.splitLines (toComments text) = (Text.splitLines text).map toComments := by
  have nonempty := Text.splitLines_ne_nil text
  conv_lhs => rw [← Text.joinLines_splitLines text, toComments_joinLines nonempty]
  refine Text.splitLines_joinLines (by simpa using nonempty) fun line member => ?_
  obtain ⟨before, isLine, rfl⟩ := List.mem_map.mp member
  exact unbroken_toComments (Text.unbroken_of_mem_splitLines isLine)

/-- Characters at which no opening can begin stay in front. -/
theorem toComments_append_left {first : Text} (without : '[' ∉ first) (second : Text)
    : toComments (first ++ second) = first ++ toComments second := by
  induction first with
  | nil => rfl
  | cons c first ih =>
      rw [List.mem_cons, not_or] at without
      have none : marker? (c :: (first ++ second)) = none := by
        refine Option.eq_none_iff_forall_ne_some.mpr fun ⟨expression, count⟩ begins => ?_
        obtain ⟨rest, shape, -⟩ := marker?_eq_some_iff.mp begins
        exact without.1 (List.cons.inj shape).1.symm
      rw [List.cons_append, toComments, Text.pieces_cons_of_none none, Text.writePieces_char, List.cons_append,
        ← ih without.2]
      rfl

/-- A text in which no marker begins stays as it is. -/
theorem toComments_of_not_infix (without : ∀ expression, ¬ marker expression <:+: text)
    : toComments text = text := by
  have divides := divides_pieces text
  rw [toComments]
  generalize Text.pieces marker? text = found at divides
  induction divides with
  | nil => rfl
  | @char c rest _ _ _ ih =>
      rw [Text.writePieces_char,
        ih fun expression within => without expression (within.trans (List.suffix_cons c rest).isInfix)]
  | @mark expression rest => exact absurd (List.prefix_append _ _).isInfix (without expression)

/-- Markers are rewritten line by line. A text with a line feed is rewritten as what stands before it and what
stands behind it are, so each line of the result comes from its own line alone and there are as many. A text
divides in one way into markers that are closed on their line and characters at which none begins; these
characters are kept and the markers become comments. A line on which no opening is followed by a closing
stays as it is.
-/
theorem toComments_line_by_line
    : (∀ first second, toComments (first ++ '\n' :: second) = toComments first ++ '\n' :: toComments second)
      ∧ ∀ text,
        Text.splitLines (toComments text) = (Text.splitLines text).map toComments
        ∧ (Text.splitLines (toComments text)).length = (Text.splitLines text).length
        ∧ (∃ parts, Divides text parts ∧ (∀ others, Divides text others → others = parts)
          ∧ toComments text = Text.writePieces comment parts)
        ∧ ∀ line ∈ Text.splitLines text,
          (∀ before between after, line ≠ before ++ (opening ++ (between ++ (closing ++ after))))
            → toComments line = line := by
  refine ⟨toComments_append, fun text => ⟨splitLines_toComments text, ?_, ?_, fun line _ without => ?_⟩⟩
  · rw [splitLines_toComments, List.length_map]
  · exact ⟨_, divides_pieces text, fun _ => (divides_pieces text).unique, rfl⟩
  · refine toComments_of_not_infix fun expression within => ?_
    obtain ⟨before, after, shape⟩ := within
    exact without before expression after (by simp [← shape, marker])

example
    : toComments "a [[SMART: b\n[[SMART:[[SMART: c ]] d ]]]\n[[SMART:e]]".toList
      = "a [[SMART: b\n/* smart: [[SMART: c */ d ]]]\n/* smart: e */".toList := by
  decide

end SmartMarker

end FeaturePress
