import FeaturePress.Examples.Expansion
import FeaturePress.Proofs.Examples.Segments
import Mathlib.Data.List.Find
import Mathlib.Data.List.Forall2

/-! What becomes of a text when its examples are expanded: lines outside of blocks and blocks that ask
for no file stay, a block that asks for one gives way to the table of the rows that its filter keeps,
and the first block that cannot be rendered is the one that is at fault.
-/

namespace FeaturePress

/-- Whether a filter is true on a row. -/
def Filter.isTrueOn (filter : Filter) (row : Row) : Bool :=
  (filter.keeps row).toOption = some true

theorem Filter.isTrueOn_of_keeps {filter : Filter} {row : Row} {verdict : Bool}
    (decided : filter.keeps row = .ok verdict)
    : filter.isTrueOn row = verdict := by
  simp [Filter.isTrueOn, decided, Except.toOption]

namespace ExamplesContext

-----------------------------------------------------------------------------------------
-- What blocks ask for
-----------------------------------------------------------------------------------------

/-- A block asks for the rows of a file: its literal names one, and this is the first place where such a
file is looked for that has one.
-/
structure Asks (context : ExamplesContext) (block : Block) (spec : ExamplesSpec) (path : Path) : Prop where
  named : ExamplesSpec.ofLiteral? block.literal = some spec
  found
    : ∃ before after,
        context.candidates ⟨spec.dataFile⟩ = before ++ path :: after
        ∧ (∀ earlier ∈ before, context.source.holds earlier = false)
        ∧ context.source.holds path = true

/-- The rows of a file that a condition keeps: all of them without a condition, and else those on which
it is true, where it has a value on each.
-/
inductive Keeps : Option Text → List Row → List Row → Prop
  | all (rows) : Keeps none rows rows
  | selected {source filter rows} (read : Filter.parse source = .ok filter)
    (decided : ∀ row ∈ rows, ∃ verdict, filter.keeps row = .ok verdict)
    : Keeps (some source) rows (rows.filter filter.isTrueOn)

/-- Why a condition keeps nothing: it is no filter, or it has no value on some row. -/
inductive Refuses : Text → List Row → FilterError → Prop
  | unread {source rows cause} (read : Filter.parse source = .error cause)
    : Refuses source rows cause
  | undecided {source filter before row after cause} (read : Filter.parse source = .ok filter)
    (decided : ∀ earlier ∈ before, ∃ verdict, filter.keeps earlier = .ok verdict)
    (fault : filter.keeps row = .error cause)
    : Refuses source (before ++ row :: after) cause

/-- The lines that stand for a segment: a line for itself, a block that asks for nothing for itself, and
one that asks for rows for the table of those that are kept, under the names of the first of these.
-/
inductive Stands (context : ExamplesContext) : Segment → List Text → Prop
  | line (text) : Stands context (.line text) [text]
  | block {block} (nothing : ∀ spec path, ¬ context.Asks block spec path)
    : Stands context (.block block) block.lines
  | table {block spec path rows first others} (asks : context.Asks block spec path)
    (read : context.source.rows path spec.sheetName = .ok rows)
    (kept : Keeps spec.filter rows (first :: others))
    : Stands context (.block block)
        ((block.indent ++ "Examples:".toList)
          :: Table.line block.indent first.names
          :: (first :: others).map fun row =>
              Table.line block.indent (first.names.map fun name => (row.get? name).getD []))

/-- Why a block cannot be rendered. -/
inductive Fails (context : ExamplesContext) : Block → ExamplesError → Prop
  | data {block spec path cause} (asks : context.Asks block spec path)
    (read : context.source.rows path spec.sheetName = .error cause)
    : Fails context block (.data context.feature cause)
  | empty {block spec path} (asks : context.Asks block spec path)
    (read : context.source.rows path spec.sheetName = .ok [])
    : Fails context block (.emptyDataFile context.feature spec.dataFile)
  | filter {block spec path rows source cause} (asks : context.Asks block spec path)
    (read : context.source.rows path spec.sheetName = .ok rows) (filled : rows ≠ [])
    (given : spec.filter = some source) (refuses : Refuses source rows cause)
    : Fails context block (.filter context.feature cause)
  | unmatched {block spec path rows source} (asks : context.Asks block spec path)
    (read : context.source.rows path spec.sheetName = .ok rows) (filled : rows ≠ [])
    (given : spec.filter = some source) (kept : Keeps spec.filter rows [])
    : Fails context block (.noMatchingRows context.feature spec.dataFile source)

variable {context : ExamplesContext} {block : Block} {spec : ExamplesSpec} {path : Path}

theorem asks_iff : context.Asks block spec path ↔ context.request? block = some (spec, path) := by
  have first (file : Text) : context.locate? file = some path
      ↔ ∃ before after, context.candidates ⟨file⟩ = before ++ path :: after
        ∧ (∀ earlier ∈ before, context.source.holds earlier = false)
        ∧ context.source.holds path = true := by
    simp only [locate?, List.find?_eq_some_iff_append, Bool.not_eq_true']
    constructor
    · rintro ⟨there, before, after, split, earlier⟩
      exact ⟨before, after, split, earlier, there⟩
    · rintro ⟨before, after, split, earlier, there⟩
      exact ⟨there, before, after, split, earlier⟩
  simp only [request?, Option.bind_eq_bind, Option.bind_eq_some_iff, Option.pure_def,
    Option.some.injEq, Prod.mk.injEq]
  constructor
  · rintro ⟨named, found⟩
    exact ⟨spec, named, path, (first _).mpr found, rfl, rfl⟩
  · rintro ⟨_, named, _, found, rfl, rfl⟩
    exact ⟨named, (first _).mp found⟩

-----------------------------------------------------------------------------------------
-- The rows that are kept
-----------------------------------------------------------------------------------------

variable {filter : Filter} {rows kept : List Row} {condition : Option Text} {cause : FilterError}

theorem keepRows_nil (filter : Filter) : keepRows filter [] = .ok [] := rfl

theorem keepRows_cons (filter : Filter) (row : Row) (rows : List Row)
    : keepRows filter (row :: rows)
      = match filter.keeps row with
        | .error error => .error error
        | .ok kept =>
          match keepRows filter rows with
          | .error error => .error error
          | .ok more => .ok (if kept then row :: more else more) := rfl

theorem select_some (rows : List Row) (source : Text)
    : select rows (some source)
      = match Filter.parse source with
        | .error error => .error error
        | .ok filter => keepRows filter rows := rfl

theorem keepRows_eq_ok_iff
    : keepRows filter rows = .ok kept
      ↔ (∀ row ∈ rows, ∃ verdict, filter.keeps row = .ok verdict)
        ∧ kept = rows.filter filter.isTrueOn := by
  induction rows generalizing kept with
  | nil => simp [keepRows_nil, eq_comm]
  | cons row rows ih =>
      rw [keepRows_cons, List.forall_mem_cons]
      cases decided : filter.keeps row with
      | error fault => simp
      | ok verdict =>
          cases later : keepRows filter rows with
          | error fault =>
              refine iff_of_false (by simp) fun all => ?_
              cases later.symm.trans (ih.mpr ⟨all.1.2, rfl⟩)
          | ok more =>
              obtain ⟨all, rfl⟩ := ih.mp later
              rw [List.filter_cons, Filter.isTrueOn_of_keeps decided]
              simp only [Except.ok.injEq]
              exact ⟨fun made => ⟨⟨⟨verdict, rfl⟩, all⟩, made.symm⟩, fun made => made.2.symm⟩

theorem keepRows_cons_eq_error_iff {row : Row}
    : keepRows filter (row :: rows) = .error cause
      ↔ filter.keeps row = .error cause
        ∨ (∃ verdict, filter.keeps row = .ok verdict) ∧ keepRows filter rows = .error cause := by
  rw [keepRows_cons]
  cases filter.keeps row with
  | error fault => simp
  | ok verdict => cases keepRows filter rows <;> simp

theorem keepRows_eq_error_iff
    : keepRows filter rows = .error cause
      ↔ ∃ before row after, rows = before ++ row :: after
        ∧ (∀ earlier ∈ before, ∃ verdict, filter.keeps earlier = .ok verdict)
        ∧ filter.keeps row = .error cause := by
  induction rows with
  | nil => simp [keepRows_nil]
  | cons row rows ih =>
      rw [keepRows_cons_eq_error_iff, ih]
      constructor
      · rintro (failed | ⟨decided, before, other, after, rfl, earlier, failed⟩)
        · exact ⟨[], row, rows, rfl, by simp, failed⟩
        · exact ⟨row :: before, other, after, rfl, List.forall_mem_cons.mpr ⟨decided, earlier⟩, failed⟩
      · rintro ⟨_ | ⟨first, before⟩, other, after, split, earlier, failed⟩
        · cases split
          exact .inl failed
        · cases split
          obtain ⟨decided, earlier⟩ := List.forall_mem_cons.mp earlier
          exact .inr ⟨decided, before, other, after, rfl, earlier, failed⟩

theorem select_eq_ok_iff : select rows condition = .ok kept ↔ Keeps condition rows kept := by
  constructor
  · intro selected
    cases condition with
    | none =>
        cases selected
        exact .all rows
    | some source =>
        rw [select_some] at selected
        split at selected
        · cases selected
        · next filter read =>
            obtain ⟨decided, rfl⟩ := keepRows_eq_ok_iff.mp selected
            exact .selected read decided
  · intro keeps
    cases keeps with
    | all => rfl
    | selected read decided =>
        rw [select_some, read]
        exact keepRows_eq_ok_iff.mpr ⟨decided, rfl⟩

theorem select_eq_error_iff
    : select rows condition = .error cause
      ↔ ∃ source, condition = some source ∧ Refuses source rows cause := by
  constructor
  · intro failed
    cases condition with
    | none => cases failed
    | some source =>
        refine ⟨source, rfl, ?_⟩
        rw [select_some] at failed
        split at failed
        · next fault read =>
            cases failed
            exact .unread read
        · next filter read =>
            obtain ⟨before, row, after, rfl, decided, fault⟩ := keepRows_eq_error_iff.mp failed
            exact .undecided read decided fault
  · rintro ⟨source, rfl, refuses⟩
    rw [select_some]
    cases refuses with
    | unread read => rw [read]
    | undecided read decided fault =>
        rw [read]
        exact keepRows_eq_error_iff.mpr ⟨_, _, _, rfl, decided, fault⟩

theorem Keeps.ne_nil (keeps : Keeps condition rows kept) (some : kept ≠ []) : rows ≠ [] := by
  rintro rfl
  cases keeps <;> exact some rfl

-----------------------------------------------------------------------------------------
-- Blocks
-----------------------------------------------------------------------------------------

variable {error : ExamplesError}

theorem rowsFor_eq_ok_iff
    : context.rowsFor spec path = .ok kept
      ↔ ∃ rows, context.source.rows path spec.sheetName = .ok rows
        ∧ Keeps spec.filter rows kept ∧ kept ≠ [] := by
  constructor
  · intro rendered
    rw [rowsFor] at rendered
    split at rendered
    · cases rendered
    · next rows read =>
        split at rendered
        · cases rendered
        · split at rendered
          · cases rendered
          · next found selected =>
              split at rendered
              · cases rendered
              · next filled =>
                  cases rendered
                  exact ⟨rows, read, select_eq_ok_iff.mp selected, by simpa using filled⟩
  · rintro ⟨rows, read, keeps, filled⟩
    have some : rows.isEmpty = false := by simpa using keeps.ne_nil filled
    rw [rowsFor, read]
    simp only [some, Bool.false_eq_true, if_false, select_eq_ok_iff.mpr keeps,
      List.isEmpty_eq_false_iff.mpr filled]

/-- A block fails where its rows do. -/
theorem fails_of_rowsFor (asks : context.Asks block spec path)
    (failed : context.rowsFor spec path = .error error)
    : context.Fails block error := by
  rw [rowsFor] at failed
  split at failed
  · next cause read =>
      cases failed
      exact .data asks read
  · next rows read =>
      split at failed
      · next empty =>
          cases failed
          rw [List.isEmpty_iff.mp empty] at read
          exact .empty asks read
      · next filled =>
          have filled : rows ≠ [] := by simpa using filled
          split at failed
          · next cause refused =>
              cases failed
              obtain ⟨source, given, refuses⟩ := select_eq_error_iff.mp refused
              exact .filter asks read filled given refuses
          · next found selected =>
              have keeps := select_eq_ok_iff.mp selected
              split at failed
              · next empty =>
                  cases failed
                  rw [List.isEmpty_iff.mp empty] at keeps
                  cases given : spec.filter with
                  | none =>
                      rw [given] at keeps
                      cases keeps
                      exact absurd rfl filled
                  | some source => exact .unmatched asks read filled given keeps
              · cases failed

theorem expandSegment_of_asks (asks : context.Asks block spec path)
    : context.expandSegment (.block block)
      = (context.rowsFor spec path).map (Table.lines block.indent) := by
  rw [expandSegment, asks_iff.mp asks]

theorem Fails.expandSegment (fails : context.Fails block error)
    : context.expandSegment (.block block) = .error error := by
  cases fails with
  | data asks read => rw [expandSegment_of_asks asks, rowsFor, read]; rfl
  | empty asks read => rw [expandSegment_of_asks asks, rowsFor, read]; rfl
  | filter asks read filled given refuses =>
      have refused := select_eq_error_iff.mpr ⟨_, given, refuses⟩
      rw [expandSegment_of_asks asks, rowsFor, read]
      simp only [List.isEmpty_eq_false_iff.mpr filled, Bool.false_eq_true, if_false, refused]
      rfl
  | unmatched asks read filled given kept =>
      rw [expandSegment_of_asks asks, rowsFor, read]
      simp only [List.isEmpty_eq_false_iff.mpr filled, Bool.false_eq_true, if_false,
        select_eq_ok_iff.mpr kept]
      rw [given]
      rfl

theorem Stands.expandSegment {segment : Segment} {lines : List Text}
    (stands : context.Stands segment lines)
    : context.expandSegment segment = .ok lines := by
  cases stands with
  | line text => rfl
  | block nothing =>
      rename_i block
      cases asked : context.request? block with
      | none => rw [ExamplesContext.expandSegment, asked]
      | some request => exact absurd (asks_iff.mpr asked) (nothing request.1 request.2)
  | table asks read kept =>
      rw [expandSegment_of_asks asks, rowsFor_eq_ok_iff.mpr ⟨_, read, kept, List.cons_ne_nil _ _⟩]
      rfl

/-- Each segment either has lines that stand for it or is a block that fails. -/
theorem stands_or_fails (context : ExamplesContext) (segment : Segment)
    : (∃ lines, context.Stands segment lines)
      ∨ ∃ block error, segment = .block block ∧ context.Fails block error := by
  cases segment with
  | line text => exact .inl ⟨_, .line text⟩
  | block block =>
      by_cases something : ∃ spec path, context.Asks block spec path
      · obtain ⟨spec, path, asks⟩ := something
        cases rendered : context.rowsFor spec path with
        | error error => exact .inr ⟨block, error, rfl, fails_of_rowsFor asks rendered⟩
        | ok kept =>
            obtain ⟨rows, read, keeps, filled⟩ := rowsFor_eq_ok_iff.mp rendered
            obtain ⟨first, others, rfl⟩ := List.exists_cons_of_ne_nil filled
            exact .inl ⟨_, .table asks read keeps⟩
      · exact .inl ⟨_, .block fun spec path asks => something ⟨spec, path, asks⟩⟩

theorem expandSegment_eq_ok_iff {segment : Segment} {lines : List Text}
    : context.expandSegment segment = .ok lines ↔ context.Stands segment lines := by
  refine ⟨fun expanded => ?_, Stands.expandSegment⟩
  rcases stands_or_fails context segment with ⟨others, stands⟩ | ⟨block, error, rfl, fails⟩
  · cases expanded.symm.trans stands.expandSegment
    exact stands
  · cases expanded.symm.trans fails.expandSegment

theorem expandSegment_eq_error_iff {segment : Segment}
    : context.expandSegment segment = .error error
      ↔ ∃ block, segment = .block block ∧ context.Fails block error := by
  constructor
  · intro failed
    rcases stands_or_fails context segment with ⟨lines, stands⟩ | ⟨block, other, rfl, fails⟩
    · cases failed.symm.trans stands.expandSegment
    · cases failed.symm.trans fails.expandSegment
      exact ⟨block, rfl, fails⟩
  · rintro ⟨block, rfl, fails⟩
    exact fails.expandSegment

-----------------------------------------------------------------------------------------
-- Texts
-----------------------------------------------------------------------------------------

variable {segments : List Segment}

theorem expandSegments_nil (context : ExamplesContext) : context.expandSegments [] = .ok [] := rfl

theorem expandSegments_cons (context : ExamplesContext) (segment : Segment) (rest : List Segment)
    : context.expandSegments (segment :: rest)
      = match context.expandSegment segment with
        | .error error => .error error
        | .ok lines => (context.expandSegments rest).map (lines ++ ·) := rfl

theorem expandSegments_eq_ok_iff {lines : List Text}
    : context.expandSegments segments = .ok lines
      ↔ ∃ parts, List.Forall₂ context.Stands segments parts ∧ lines = parts.flatten := by
  induction segments generalizing lines with
  | nil => simp [expandSegments_nil, eq_comm]
  | cons segment rest ih =>
      rw [expandSegments_cons]
      constructor
      · intro expanded
        split at expanded
        · cases expanded
        · next part first =>
            cases later : context.expandSegments rest with
            | error fault => rw [later] at expanded; cases expanded
            | ok others =>
                rw [later] at expanded
                cases expanded
                obtain ⟨parts, stand, rfl⟩ := ih.mp later
                exact ⟨part :: parts, .cons (expandSegment_eq_ok_iff.mp first) stand, rfl⟩
      · rintro ⟨_, stand, rfl⟩
        cases stand with
        | cons first stand =>
            rw [first.expandSegment, ih.mpr ⟨_, stand, rfl⟩]
            rfl

theorem exists_stands {parts : List (List Text)} (stand : List.Forall₂ context.Stands segments parts)
    {segment : Segment} (member : segment ∈ segments)
    : ∃ lines, context.Stands segment lines := by
  induction stand with
  | nil => cases member
  | cons first _ ih =>
      rcases List.mem_cons.mp member with rfl | later
      · exact ⟨_, first⟩
      · exact ih later

theorem Stands.not_fails {lines : List Text} (stands : context.Stands (.block block) lines)
    : ¬ context.Fails block error := fun fails => by
  cases stands.expandSegment.symm.trans fails.expandSegment

/-- Expanding fails with the first segment, or behind it if lines stand for that. -/
theorem expandSegments_cons_eq_error_iff {segment : Segment}
    : context.expandSegments (segment :: segments) = .error error
      ↔ context.expandSegment segment = .error error
        ∨ (∃ lines, context.Stands segment lines) ∧ context.expandSegments segments = .error error := by
  simp only [expandSegments_cons, ← expandSegment_eq_ok_iff]
  cases context.expandSegment segment with
  | error fault => simp
  | ok part => cases context.expandSegments segments <;> simp [Except.map]

/-- Expanding fails at the first block that fails, by induction on the segments before it. -/
theorem expandSegments_eq_error_iff
    : context.expandSegments segments = .error error
      ↔ ∃ before block after, segments = before ++ .block block :: after
        ∧ (∀ earlier, .block earlier ∈ before → ∀ other, ¬ context.Fails earlier other)
        ∧ context.Fails block error := by
  induction segments with
  | nil => simp [expandSegments_nil]
  | cons segment rest ih =>
      rw [expandSegments_cons_eq_error_iff, expandSegment_eq_error_iff, ih]
      constructor
      · rintro (⟨block, rfl, fails⟩ | ⟨⟨lines, stands⟩, before, block, after, rfl, first, fails⟩)
        · exact ⟨[], block, rest, rfl, by simp, fails⟩
        · refine ⟨segment :: before, block, after, rfl, fun earlier member => ?_, fails⟩
          rcases List.mem_cons.mp member with rfl | there
          · exact fun other => stands.not_fails
          · exact first earlier there
      · rintro ⟨_ | ⟨head, before⟩, block, after, split, first, fails⟩
        · cases split
          exact .inl ⟨block, rfl, fails⟩
        · cases split
          refine .inr ⟨?_, before, block, after, rfl,
            fun earlier member => first earlier (List.mem_cons_of_mem _ member), fails⟩
          rcases stands_or_fails context segment with stands | ⟨other, fault, rfl, failsHere⟩
          · exact stands
          · exact absurd failsHere (first other (List.mem_cons_self ..) fault)

theorem expand_eq_ok_iff {text result : Text}
    : context.expand text = .ok result
      ↔ ∃ parts, List.Forall₂ context.Stands (Segment.ofText text) parts
        ∧ result = Text.joinLines parts.flatten := by
  rw [expand]
  constructor
  · intro expanded
    cases expands : context.expandSegments (Segment.ofText text) with
    | error fault => rw [expands] at expanded; cases expanded
    | ok lines =>
        rw [expands] at expanded
        cases expanded
        obtain ⟨parts, stand, rfl⟩ := expandSegments_eq_ok_iff.mp expands
        exact ⟨parts, stand, rfl⟩
  · rintro ⟨parts, stand, rfl⟩
    rw [expandSegments_eq_ok_iff.mpr ⟨parts, stand, rfl⟩]
    rfl

theorem expand_eq_error_iff {text : Text}
    : context.expand text = .error error
      ↔ ∃ before block after, Segment.ofText text = before ++ .block block :: after
        ∧ (∀ earlier, .block earlier ∈ before → ∀ other, ¬ context.Fails earlier other)
        ∧ context.Fails block error := by
  rw [← expandSegments_eq_error_iff, expand]
  cases context.expandSegments (Segment.ofText text) <;> simp [Except.map]

/-- Expanding replaces exactly the blocks that ask for rows. The blocks of a text lie in its lines one
behind the other, and with the lines between them they make up the text. Expanding succeeds with what
stands for these segments, one after the other; it fails exactly when some block fails, with the error
of the first that does.
-/
theorem expand_replaces_requested_blocks (context : ExamplesContext) (text : Text)
    : Block.LieIn (Text.splitLines text) (Segment.located 0 (Segment.ofText text))
      ∧ (Segment.ofText text).flatMap Segment.lines = Text.splitLines text
      ∧ (∀ result, context.expand text = .ok result
        ↔ ∃ parts, List.Forall₂ context.Stands (Segment.ofText text) parts
          ∧ result = Text.joinLines parts.flatten)
      ∧ ((∃ error, context.expand text = .error error)
        ↔ ∃ block, .block block ∈ Segment.ofText text ∧ ∃ error, context.Fails block error)
      ∧ ∀ error, context.expand text = .error error
        ↔ ∃ before block after, Segment.ofText text = before ++ .block block :: after
          ∧ (∀ earlier, .block earlier ∈ before → ∀ other, ¬ context.Fails earlier other)
          ∧ context.Fails block error := by
  refine ⟨Segment.lieIn_located text, Segment.flatMap_lines_ofText text, fun _ => expand_eq_ok_iff, ?_,
    fun _ => expand_eq_error_iff⟩
  constructor
  · rintro ⟨error, failed⟩
    obtain ⟨before, block, after, split, -, fails⟩ := expand_eq_error_iff.mp failed
    exact ⟨block, by simp [split], error, fails⟩
  · rintro ⟨block, member, error, fails⟩
    cases expanded : context.expand text with
    | error fault => exact ⟨fault, rfl⟩
    | ok result =>
        obtain ⟨parts, stand, -⟩ := expand_eq_ok_iff.mp expanded
        obtain ⟨lines, stands⟩ := exists_stands stand member
        exact absurd fails stands.not_fails

end ExamplesContext

end FeaturePress
