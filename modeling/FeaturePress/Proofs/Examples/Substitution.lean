import FeaturePress.Proofs.Examples.Locating
import FeaturePress.Proofs.Examples.Placeholders

/-! What substitution changes. Lines outside of blocks stay, and so does all that stands before the literal
of a block. A placeholder behind the literal, on its last line, is substituted as one inside is.
-/

namespace FeaturePress

namespace Variables

/-- What stands outside of the literals stays as it is: lines outside of blocks, and what is before and
behind the literal of a block.
-/
inductive KeepsOutside : Segment → List Text → Prop
  | line (text) : KeepsOutside (.line text) [text]
  | block {block gap tail lines literal} (frame : block.Frame gap tail)
    (kept
      : Text.joinLines lines = block.indent ++ (Block.keyword ++ (gap ++ (literal ++ tail))))
    : KeepsOutside (.block block) lines

/-- The keys that the lines of a segment ask for. -/
def keysAsked : Segment → List Text
  | .line _ => []
  | .block block => block.lines.flatMap keysOfLine

/-- The keys of the placeholders in the literal of a segment. -/
def keysInside : Segment → List Text
  | .line _ => []
  | .block block => keysOfText block.literal

/-- No placeholder stands behind the literal of a block. -/
def Confined (text : Text) : Prop :=
  ∀ block gap tail, .block block ∈ Segment.ofText text → block.Frame gap tail → keysOfLine tail = []

variable {text gap tail : Text} {block : Block} {value other : Text → Text}

-----------------------------------------------------------------------------------------
-- The parts of a block
-----------------------------------------------------------------------------------------

theorem substituteText_joinLines {lines : List Text} (nonempty : lines ≠ [])
    (unbroken : ∀ line ∈ lines, '\n' ∉ line) (value : Text → Text)
    : substituteText value (Text.joinLines lines) = Text.joinLines (lines.map (substituteLine value)) := by
  rw [substituteText, Text.splitLines_joinLines nonempty unbroken]

theorem keysOfText_joinLines {lines : List Text} (nonempty : lines ≠ [])
    (unbroken : ∀ line ∈ lines, '\n' ∉ line)
    : keysOfText (Text.joinLines lines) = lines.flatMap keysOfLine := by
  rw [keysOfText, Text.splitLines_joinLines nonempty unbroken]

theorem dollar_not_mem_of_blank {blanks : Text} (blank : ∀ c ∈ blanks, Text.isBlank c = true)
    : '$' ∉ blanks := fun member => by
  cases blank _ member

/-- Up to the literal a block has no placeholders, and one in the literal ends there. -/
theorem apart_of_frame (frame : block.Frame gap tail)
    : '$' ∉ block.indent ++ (Block.keyword ++ gap) ∧ Apart block.literal tail := by
  constructor
  · have keyword : '$' ∉ Block.keyword := by decide
    simp [dollar_not_mem_of_blank frame.begins.indented, dollar_not_mem_of_blank frame.begins.blank,
      keyword]
  · obtain ⟨init, shape⟩ := frame.begins.balanced.exists_init
    rw [shape]
    exact apart_concat_brace init tail

/-- The placeholders in the literal and those behind it are substituted, and nothing before the literal. -/
theorem joinLines_substituteSegment (member : .block block ∈ Segment.ofText text)
    (frame : block.Frame gap tail) (value : Text → Text)
    : Text.joinLines (substituteSegment value (.block block))
      = block.indent
        ++ (Block.keyword
          ++ (gap ++ (substituteText value block.literal ++ substituteLine value tail))) := by
  obtain ⟨nonempty, unbroken⟩ := Block.lines_of_mem_ofText member
  obtain ⟨before, apart⟩ := apart_of_frame frame
  have shape : Text.joinLines block.lines
      = block.indent ++ (Block.keyword ++ gap) ++ (block.literal ++ tail) := by
    rw [frame.begins.shape]
    simp
  rw [substituteSegment, ← substituteText_joinLines nonempty unbroken, shape,
    substituteText_append_left before, substituteText_append apart, substituteText_of_unbroken frame.flush]
  simp

theorem keys_eq (text : Text) : keys text = (Segment.ofText text).flatMap keysAsked :=
  List.flatMap_congr fun segment _ => by cases segment <;> rfl

theorem keysAsked_block (member : .block block ∈ Segment.ofText text) (frame : block.Frame gap tail)
    : keysAsked (.block block) = keysOfText block.literal ++ keysOfLine tail := by
  obtain ⟨nonempty, unbroken⟩ := Block.lines_of_mem_ofText member
  obtain ⟨before, apart⟩ := apart_of_frame frame
  have shape : Text.joinLines block.lines
      = block.indent ++ (Block.keyword ++ gap) ++ (block.literal ++ tail) := by
    rw [frame.begins.shape]
    simp
  rw [keysAsked, ← keysOfText_joinLines nonempty unbroken, shape,
    keysOfText_append (apart_of_not_mem_left before _), keysOfText_of_not_mem (.inl before),
    keysOfText_append apart, keysOfText_of_unbroken frame.flush, List.nil_append]

-----------------------------------------------------------------------------------------
-- Placeholders behind a literal
-----------------------------------------------------------------------------------------

theorem substituteLine_eq_self (unbroken : '\n' ∉ tail) (none : keysOfLine tail = [])
    : substituteLine value tail = tail :=
  (divides_pieces unbroken).writePieces_eq none value

/-- A line that is an end of itself with any values has no placeholders: the last one ends with a brace, and a
letter may be its value.
-/
theorem keysOfLine_eq_nil_of_suffix (unbroken : '\n' ∉ tail)
    (stays : ∀ value, ∃ lead front, lead ++ tail = front ++ substituteLine value tail)
    : keysOfLine tail = [] := by
  by_contra some
  obtain ⟨front, key, rest, shape, behind⟩ := (divides_pieces unbroken).exists_last some
  obtain ⟨lead, ahead, same⟩ := stays fun _ => ['x']
  obtain ⟨written, writtenShape⟩ := behind fun _ => ['x']
  rw [substituteLine, writtenShape, shape] at same
  have same : (lead ++ front ++ opening ++ key ++ ['\x7d']) ++ rest
      = (ahead ++ written ++ ['x']) ++ rest := by
    simpa [placeholder, closing] using same
  have last := congrArg List.getLast? (List.append_cancel_right same)
  rw [List.getLast?_concat, List.getLast?_concat] at last
  cases last

theorem keepsOutside_iff (member : .block block ∈ Segment.ofText text) (frame : block.Frame gap tail)
    : (∀ value, KeepsOutside (.block block) (substituteSegment value (.block block)))
      ↔ keysOfLine tail = [] := by
  constructor
  · intro keeps
    refine keysOfLine_eq_nil_of_suffix frame.flush fun value => ?_
    have changed := joinLines_substituteSegment member frame value
    cases keeps value with
    | @block _ gap' tail' _ literal again kept =>
        obtain ⟨rfl, rfl⟩ := frame.unique again
        rw [changed] at kept
        have same := List.append_cancel_left
          (List.append_cancel_left (List.append_cancel_left kept))
        exact ⟨literal, substituteText value block.literal, same.symm⟩
  · intro none value
    have kept := joinLines_substituteSegment member frame value
    rw [substituteLine_eq_self frame.flush none] at kept
    exact .block frame kept

/-- Where each part of a list yields what it should and perhaps more, the whole yields what it should
exactly when each part does.
-/
theorem flatMap_eq_iff_of_prefix {α β : Type} {parts : List α} {all wanted : α → List β}
    (within : ∀ part ∈ parts, wanted part <+: all part)
    : parts.flatMap all = parts.flatMap wanted ↔ ∀ part ∈ parts, all part = wanted part := by
  have length (rest : List α) (within : ∀ part ∈ rest, wanted part <+: all part)
      : (rest.flatMap wanted).length ≤ (rest.flatMap all).length := by
    induction rest with
    | nil => exact Nat.le_refl 0
    | cons part rest ih =>
        obtain ⟨first, others⟩ := List.forall_mem_cons.mp within
        simp only [List.flatMap_cons, List.length_append]
        exact Nat.add_le_add first.length_le (ih others)
  induction parts with
  | nil => simp
  | cons part rest ih =>
      obtain ⟨⟨more, first⟩, others⟩ := List.forall_mem_cons.mp within
      rw [List.flatMap_cons, List.flatMap_cons, List.forall_mem_cons, ← first, List.append_assoc,
        List.append_cancel_left_eq, List.append_right_eq_self]
      constructor
      · intro same
        have size := congrArg List.length same
        have := length rest others
        rw [List.length_append] at size
        have none : more = [] := List.eq_nil_of_length_eq_zero (by omega)
        rw [none, List.nil_append] at same
        exact ⟨none, (ih others).mp same⟩
      · rintro ⟨rfl, same⟩
        rw [List.nil_append, (ih others).mpr same]

theorem substituteLine_congr {line : Text} (same : ∀ key ∈ keysOfLine line, value key = other key)
    : substituteLine value line = substituteLine other line :=
  writePieces_congr same

/-- A text with its values depends on those that are asked for. -/
theorem substitute_congr (same : ∀ key ∈ keys text, value key = other key)
    : substitute value text = substitute other text := by
  rw [substitute, substitute]
  congr 1
  refine List.flatMap_congr fun segment member => ?_
  cases segment with
  | line text => rfl
  | block block =>
      refine List.map_congr_left fun line within => substituteLine_congr fun key asked => ?_
      rw [keys_eq] at same
      exact same key (List.mem_flatMap.mpr ⟨_, member, List.mem_flatMap.mpr ⟨line, within, asked⟩⟩)

/-- Substitution stays inside of the literals, and asks for the keys of the placeholders inside only,
exactly when no placeholder stands behind a literal on the last line of its block: lines outside of blocks
and what is before a literal stay in any case, and what is behind it is substituted as the literal is.
-/
theorem stays_inside_iff_confined (text : Text)
    : ((∀ value, ∀ segment ∈ Segment.ofText text,
          KeepsOutside segment (substituteSegment value segment)) ↔ Confined text)
      ∧ (keys text = (Segment.ofText text).flatMap keysInside ↔ Confined text)
      ∧ (∀ value other, (∀ key ∈ keys text, value key = other key)
          → substitute value text = substitute other text)
      ∧ ∀ block, .block block ∈ Segment.ofText text → ∃ gap tail, block.Frame gap tail
          ∧ keysAsked (.block block) = keysOfText block.literal ++ keysOfLine tail
          ∧ ∀ value, Text.joinLines (substituteSegment value (.block block))
              = block.indent
                ++ (Block.keyword
                  ++ (gap ++ (substituteText value block.literal ++ substituteLine value tail))) := by
  refine ⟨⟨fun keeps block gap tail member frame => ?_, fun confined value segment member => ?_⟩, ?_,
    fun value other => substitute_congr, fun block member => ?_⟩
  · exact (keepsOutside_iff member frame).mp fun value => keeps value _ member
  · cases segment with
    | line text => exact .line text
    | block block =>
        obtain ⟨gap, tail, frame⟩ := Block.exists_frame_of_mem_ofText member
        exact (keepsOutside_iff member frame).mpr (confined block gap tail member frame) value
  · rw [keys_eq, flatMap_eq_iff_of_prefix]
    · constructor
      · intro same block gap tail member frame
        have := same _ member
        rw [keysInside, keysAsked_block member frame] at this
        exact List.append_right_eq_self.mp this
      · intro confined segment member
        cases segment with
        | line text => rfl
        | block block =>
            obtain ⟨gap, tail, frame⟩ := Block.exists_frame_of_mem_ofText member
            rw [keysInside, keysAsked_block member frame, confined block gap tail member frame,
              List.append_nil]
    · intro segment member
      cases segment with
      | line text => exact List.nil_prefix
      | block block =>
          obtain ⟨gap, tail, frame⟩ := Block.exists_frame_of_mem_ofText member
          rw [keysInside, keysAsked_block member frame]
          exact List.prefix_append _ _
  · obtain ⟨gap, tail, frame⟩ := Block.exists_frame_of_mem_ofText member
    exact ⟨gap, tail, frame, keysAsked_block member frame, joinLines_substituteSegment member frame⟩

/-- A placeholder in a comment behind a literal. -/
theorem comment_behind_literal_substituted
    : substitute (fun _ => ['v']) "Examples: \x7bdatafile: 'a.csv'\x7d # $\x7benv.X\x7d".toList
        = "Examples: \x7bdatafile: 'a.csv'\x7d # v".toList
      ∧ keys "Examples: \x7bdatafile: 'a.csv'\x7d # $\x7benv.X\x7d".toList = [['X']] := by
  decide +kernel

end Variables

end FeaturePress
