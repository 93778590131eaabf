import FeaturePress.Proofs.Examples.Braces
import FeaturePress.Proofs.Examples.Segments
import FeaturePress.Proofs.Text.Blank

/-! Where the literal of a block stands. Blocks are looked for line by line, yet one is found exactly where
the text goes on with the keyword, blanks over any number of lines, and a literal that its last character
closes.
-/

namespace FeaturePress

namespace Block

/-- A text is a literal to the look for its end: it begins with a brace that its last character closes. -/
structure Balanced (literal : Text) : Prop where
  opens : literal.head? = some '\x7b'
  closed : BraceState.start.readOn literal = .inr literal

/-- A literal stands in a text behind nothing but blanks. -/
structure Opens (text gap literal tail : Text) : Prop where
  shape : text = gap ++ (literal ++ tail)
  blank : ∀ c ∈ gap, Text.isBlank c = true
  balanced : Balanced literal

/-- A text begins with a block: blanks on the line of the keyword, the keyword, and the literal behind
blanks.
-/
structure Begins (text indent gap literal tail : Text) : Prop where
  shape : text = indent ++ (keyword ++ (gap ++ (literal ++ tail)))
  indented : ∀ c ∈ indent, Text.isBlank c = true
  flush : '\n' ∉ indent
  blank : ∀ c ∈ gap, Text.isBlank c = true
  balanced : Balanced literal

/-- The lines of a block end with the rest of the line that its literal ends on. -/
structure Frame (block : Block) (gap tail : Text) : Prop where
  begins : Begins (Text.joinLines block.lines) block.indent gap block.literal tail
  flush : '\n' ∉ tail

variable {text line first indent gap literal tail : Text} {rest : List Text} {count : Nat}

-----------------------------------------------------------------------------------------
-- Literals behind blanks
-----------------------------------------------------------------------------------------

theorem Balanced.exists_body (balanced : Balanced literal) : ∃ body, literal = '\x7b' :: body := by
  have opens := balanced.opens
  cases literal with
  | nil => cases opens
  | cons c body => exact ⟨body, by simpa using opens⟩

/-- Blanks that a text begins with are before its literal. -/
theorem opens_append_iff {lead : Text} (blank : ∀ c ∈ lead, Text.isBlank c = true)
    : Opens (lead ++ text) gap literal tail
      ↔ ∃ more, gap = lead ++ more ∧ Opens text more literal tail := by
  constructor
  · rintro ⟨shape, blanks, balanced⟩
    obtain ⟨body, rfl⟩ := balanced.exists_body
    obtain ⟨more, rfl, rest⟩ := Text.exists_blanks_of_append_eq blank rfl shape
    exact ⟨more, rfl, rest, fun c member => blanks c (List.mem_append_right _ member), balanced⟩
  · rintro ⟨more, rfl, shape, blanks, balanced⟩
    refine ⟨by rw [shape, List.append_assoc], fun c member => ?_, balanced⟩
    rcases List.mem_append.mp member with here | later
    · exact blank c here
    · exact blanks c later

/-- A text that begins with no blank begins with its literal. -/
theorem opens_cons_iff {c : Char} {body : Text} (plain : Text.isBlank c = false)
    : Opens (c :: body) gap literal tail
      ↔ gap = [] ∧ c = '\x7b' ∧ c :: body = literal ++ tail ∧ Balanced literal := by
  constructor
  · rintro ⟨shape, blanks, balanced⟩
    obtain ⟨inner, rfl⟩ := balanced.exists_body
    cases gap with
    | nil => exact ⟨rfl, (List.cons.inj shape).1, shape, balanced⟩
    | cons d gap =>
        obtain ⟨rfl, -⟩ := List.cons.inj shape
        have := blanks c (List.mem_cons_self ..)
        rw [plain] at this
        cases this
  · rintro ⟨rfl, -, shape, balanced⟩
    exact ⟨shape, by simp, balanced⟩

/-- On the line that a literal opens on, it is found if it is closed. -/
theorem open?_eq_some_iff (unbroken : ∀ piece ∈ line :: rest, '\n' ∉ piece)
    (solid : Text.isBlankText line = false)
    : open? line rest = some (literal, count)
      ↔ ∃ gap tail, Opens (Text.joinLines (line :: rest)) gap literal tail
        ∧ count = (gap ++ literal).count '\n' := by
  have split := Text.indentation_append_trimStart line
  cases trimmed : Text.trimStart line with
  | nil =>
      rw [trimmed, List.append_nil] at split
      rw [← split] at solid
      have blank : Text.isBlankText (Text.indentation line) = true :=
        List.all_eq_true.mpr fun _ => Text.isBlank_of_mem_indentation
      rw [blank] at solid
      cases solid
  | cons c body =>
      have plain := Text.isBlank_of_trimStart_eq_cons trimmed
      rw [trimmed] at split
      have flush : '\n' ∉ Text.indentation line := fun member =>
        unbroken line (List.mem_cons_self ..) (Text.indentation_subset line member)
      have others : ∀ piece ∈ (c :: body) :: rest, '\n' ∉ piece := by
        rintro piece member
        rcases List.mem_cons.mp member with rfl | later
        · exact fun feed => unbroken line (List.mem_cons_self ..)
            (split ▸ List.mem_append_right _ feed)
        · exact unbroken piece (List.mem_cons_of_mem _ later)
      obtain ⟨behind, joined⟩ := Text.exists_joinLines_cons rest
      have whole : Text.joinLines (line :: rest) = Text.indentation line ++ ((c :: body) ++ behind) := by
        rw [joined, ← List.append_assoc, split]
      simp only [open?, trimmed, whole, opens_append_iff fun _ => Text.isBlank_of_mem_indentation,
        List.cons_append, opens_cons_iff plain]
      have noFeed : (Text.indentation line).count '\n' = 0 := List.count_eq_zero.mpr flush
      by_cases brace : c = '\x7b'
      · subst brace
        have closes := close?_eq .start others
        rw [joined, List.cons_append] at closes
        simp only [closes]
        constructor
        · intro found
          cases read : BraceState.start.readOn ('\x7b' :: (body ++ behind)) with
          | inl later => rw [read] at found; cases found
          | inr closed =>
              rw [read] at found
              cases found
              obtain ⟨self, tail, shape⟩ := BraceState.readOn_literal read
              have opens : literal.head? = some '\x7b' := by
                cases literal with
                | nil => cases self
                | cons d literal => rw [← (List.cons.inj shape).1]; rfl
              refine ⟨_, tail, ⟨[], rfl, rfl, trivial, shape, opens, self⟩, ?_⟩
              simp [noFeed]
        · rintro ⟨gap, tail, ⟨more, rfl, rfl, -, shape, balanced⟩, rfl⟩
          rw [shape, BraceState.readOn_append_of_inr balanced.closed]
          simp [noFeed]
      · constructor
        · intro found
          split at found
          · next shape => exact absurd (List.cons.inj shape).1 brace
          · cases found
        · rintro ⟨_, _, ⟨_, _, _, same, _⟩, _⟩
          exact absurd same brace

/-- A literal is found on the first line that is not blank, by induction on the lines. -/
theorem found_eq_some_iff (unbroken : ∀ piece ∈ line :: rest, '\n' ∉ piece)
    : (if Text.isBlankText line then openBelow? rest else open? line rest) = some (literal, count)
      ↔ ∃ gap tail, Opens (Text.joinLines (line :: rest)) gap literal tail
        ∧ count = (gap ++ literal).count '\n' := by
  induction rest generalizing line count with
  | nil =>
      cases blank : Text.isBlankText line with
      | false =>
          rw [if_neg Bool.false_ne_true]
          exact open?_eq_some_iff unbroken blank
      | true =>
          rw [if_pos rfl]
          constructor
          · rintro ⟨⟩
          · rintro ⟨gap, tail, ⟨shape, -, balanced⟩, -⟩
            obtain ⟨body, rfl⟩ := balanced.exists_body
            have member : '\x7b' ∈ line := by
              rw [Text.joinLines, List.intercalate_singleton] at shape
              simp [shape]
            cases List.all_eq_true.mp blank _ member
  | cons next rest ih =>
      cases blank : Text.isBlankText line with
      | false =>
          rw [if_neg Bool.false_ne_true]
          exact open?_eq_some_iff unbroken blank
      | true =>
          rw [if_pos rfl, openBelow?, Text.joinLines_cons_cons]
          have here : line.count '\n' = 0 :=
            List.count_eq_zero.mpr (unbroken line (List.mem_cons_self ..))
          have blanks : ∀ c ∈ line ++ ['\n'], Text.isBlank c = true := by
            intro c member
            rcases List.mem_append.mp member with inLine | feed
            · exact List.all_eq_true.mp blank c inLine
            · obtain rfl := List.mem_singleton.mp feed
              rfl
          have ih {count : Nat} := @ih next count fun piece member =>
            unbroken piece (List.mem_cons_of_mem line member)
          rw [List.append_cons line '\n' (Text.joinLines (next :: rest))]
          simp only [opens_append_iff blanks, Option.map_eq_some_iff, Prod.exists, Prod.mk.injEq]
          constructor
          · rintro ⟨_, more, found, rfl, rfl⟩
            obtain ⟨gap, tail, opens, rfl⟩ := ih.mp found
            refine ⟨_, tail, ⟨gap, rfl, opens⟩, ?_⟩
            simp [here, Nat.add_assoc]
          · rintro ⟨_, tail, ⟨gap, rfl, opens⟩, rfl⟩
            refine ⟨_, _, ih.mpr ⟨gap, tail, opens, rfl⟩, rfl, ?_⟩
            simp [here, Nat.add_assoc]

-----------------------------------------------------------------------------------------
-- Blocks
-----------------------------------------------------------------------------------------

theorem flush_keyword : '\n' ∉ keyword := by decide

/-- The line that a block begins with is indented as the block is, and goes on with the keyword. -/
theorem Begins.exists_line (begins : Begins (Text.joinLines (first :: rest)) indent gap literal tail)
    : ∃ more, first = indent ++ (keyword ++ more) ∧ Text.indentation first = indent
      ∧ Text.trimStart first = keyword ++ more
      ∧ Opens (Text.joinLines (more :: rest)) gap literal tail := by
  have flush : '\n' ∉ indent ++ keyword := by simp [begins.flush, flush_keyword]
  obtain ⟨more, rfl, shape⟩ := Text.exists_of_joinLines_eq_append flush
    (begins.shape.trans (List.append_assoc ..).symm)
  rw [List.append_assoc]
  exact ⟨more, rfl, Text.indentation_append_cons begins.indented _ rfl,
    Text.trimStart_append_cons begins.indented _ rfl, shape, begins.blank, begins.balanced⟩

/-- A block is found exactly where the text of its lines and of those that follow begins with one. -/
theorem literal?_eq_some_iff (unbroken : ∀ piece ∈ first :: rest, '\n' ∉ piece)
    : literal? first rest = some (literal, count)
      ↔ ∃ gap tail, Begins (Text.joinLines (first :: rest)) (Text.indentation first) gap literal tail
        ∧ count = (gap ++ literal).count '\n' := by
  have here := unbroken first (List.mem_cons_self ..)
  have behind {lead more : Text} (shape : first = lead ++ more) : ∀ piece ∈ more :: rest, '\n' ∉ piece :=
    List.forall_mem_cons.mpr ⟨fun feed => here (shape ▸ List.mem_append_right _ feed),
      fun piece member => unbroken piece (List.mem_cons_of_mem _ member)⟩
  have split := Text.indentation_append_trimStart first
  rw [literal?]
  constructor
  · intro found
    cases after : Text.after? keyword (Text.trimStart first) with
    | none => rw [after] at found; cases found
    | some more =>
        rw [after] at found
        rw [← Text.after?_eq_some_iff.mp after, ← List.append_assoc] at split
        obtain ⟨gap, tail, opens, rfl⟩ := (found_eq_some_iff (behind split.symm)).mp found
        refine ⟨gap, tail, ⟨?_, fun _ => Text.isBlank_of_mem_indentation,
          fun feed => here (Text.indentation_subset first feed), opens.blank, opens.balanced⟩, rfl⟩
        rw [← opens.shape, ← List.append_assoc, ← Text.joinLines_append_cons, split]
  · rintro ⟨gap, tail, begins, rfl⟩
    obtain ⟨more, shape, -, trimmed, opens⟩ := begins.exists_line
    have after : Text.after? keyword (Text.trimStart first) = some more :=
      Text.after?_eq_some_iff.mpr trimmed.symm
    rw [← List.append_assoc] at shape
    rw [after]
    exact (found_eq_some_iff (behind shape)).mpr ⟨gap, tail, opens, rfl⟩

/-- The first block of a text that begins with one is that, with the lines that it reaches into. -/
theorem Begins.exists_ofText (begins : Begins text indent gap literal tail)
    : ∃ back, Segment.ofText text
        = .block ⟨(Text.splitLines text).take ((gap ++ literal).count '\n' + 1), indent, literal⟩
          :: back := by
  have unbroken : ∀ piece ∈ Text.splitLines text, '\n' ∉ piece :=
    fun _ => Text.unbroken_of_mem_splitLines
  have joined := Text.joinLines_splitLines text
  rw [Segment.ofText]
  cases split : Text.splitLines text with
  | nil => exact absurd split (Text.splitLines_ne_nil text)
  | cons first rest =>
      rw [split] at unbroken joined
      rw [← joined] at begins
      obtain ⟨-, -, indented, -⟩ := begins.exists_line
      have found := (literal?_eq_some_iff unbroken).mpr ⟨gap, tail, by rwa [indented], rfl⟩
      rw [Segment.ofLinesFrom, found, indented, List.take_succ_cons]
      exact ⟨_, rfl⟩

/-- Behind lines without the keyword the first block of a text is found as without them. -/
theorem Begins.exists_ofText_joinLines {before : List Text} (begins : Begins text indent gap literal tail)
    (plain
      : ∀ line ∈ before, '\n' ∉ line ∧ Text.startsWith (Text.trimStart line) keyword = false)
    : ∃ back, Segment.ofText (Text.joinLines (before ++ [text]))
        = before.map .line
          ++ .block ⟨(Text.splitLines text).take ((gap ++ literal).count '\n' + 1), indent, literal⟩
          :: back := by
  obtain ⟨back, found⟩ := begins.exists_ofText
  refine ⟨back, ?_⟩
  rw [Segment.ofText] at found
  rw [Segment.ofText,
    Text.splitLines_joinLines_append (by simp) fun line member => (plain line member).1,
    Text.joinLines, List.intercalate_singleton,
    Segment.ofLinesFrom_append_of_plain _ fun line member => (plain line member).2, found]

/-- The lines of a block are where it begins, and nothing but the rest of the last one is behind the
literal.
-/
theorem exists_frame_of_mem_ofText {block : Block} (member : .block block ∈ Segment.ofText text)
    : ∃ gap tail, block.Frame gap tail := by
  obtain ⟨place, located⟩ := Segment.exists_mem_located 0 member
  obtain ⟨first, rest, count, here, found, -, lines, indent⟩ :=
    (Segment.lieIn_located text).found place block located
  have unbroken : ∀ piece ∈ first :: rest, '\n' ∉ piece := fun piece within =>
    Text.unbroken_of_mem_splitLines (List.mem_of_mem_drop (here ▸ within))
  obtain ⟨gap, tail, begins, rfl⟩ := (literal?_eq_some_iff unbroken).mp found
  have feeds : (Text.indentation first ++ keyword).count '\n' = 0 := by
    rw [List.count_append, List.count_eq_zero.mpr begins.flush, List.count_eq_zero.mpr flush_keyword]
  have shape : Text.joinLines block.lines
      = Text.indentation first ++ (keyword ++ (gap ++ (block.literal ++ tail.takeWhile (· ≠ '\n')))) := by
    have taken := Text.joinLines_take_splitLines
      (Text.indentation first ++ keyword ++ (gap ++ block.literal)) tail
    rw [List.count_append, feeds, Nat.zero_add] at taken
    have whole : Text.splitLines (Text.indentation first ++ keyword ++ (gap ++ block.literal) ++ tail)
        = first :: rest := by
      rw [← Text.splitLines_joinLines (by simp) unbroken, begins.shape]
      simp
    rw [whole, List.take_succ_cons, ← lines] at taken
    simpa using taken
  rw [← indent] at shape begins
  exact ⟨gap, _, ⟨shape, begins.indented, begins.flush, begins.blank, begins.balanced⟩,
    fun feed => by simpa using List.mem_takeWhile_imp feed⟩

/-- A block has one frame. -/
theorem Frame.unique {block : Block} {other behind : Text} (frame : block.Frame gap tail)
    (again : block.Frame other behind)
    : other = gap ∧ behind = tail := by
  have same := frame.begins.shape.symm.trans again.begins.shape
  have same := List.append_cancel_left (List.append_cancel_left same)
  obtain ⟨body, literal⟩ := frame.begins.balanced.exists_body
  rw [literal] at same
  obtain ⟨more, rfl, _⟩ := Text.exists_blanks_of_append_eq frame.begins.blank rfl same
  obtain ⟨left, whole, _⟩ := Text.exists_blanks_of_append_eq again.begins.blank rfl same.symm
  obtain rfl : more = [] := by
    have size := congrArg List.length whole
    simp only [List.length_append] at size
    exact List.eq_nil_of_length_eq_zero (by omega)
  rw [List.append_nil] at same ⊢
  exact ⟨rfl, (List.append_cancel_left (List.append_cancel_left same)).symm⟩

/-- Whatever lines follow, a block is found from its first line to its last. -/
theorem Frame.literal?_eq {block : Block} {more following : List Text} (frame : block.Frame gap tail)
    (lines : block.lines = first :: more) (unbroken : ∀ line ∈ first :: (more ++ following), '\n' ∉ line)
    : literal? first (more ++ following) = some (block.literal, more.length)
      ∧ Text.indentation first = block.indent := by
  have begins := frame.begins
  rw [lines] at begins
  obtain ⟨-, -, indented, -⟩ := begins.exists_line
  refine ⟨(literal?_eq_some_iff unbroken).mpr
    ⟨gap, tail ++ following.flatMap ('\n' :: ·), ?_, ?_⟩, indented⟩
  · rw [indented]
    refine ⟨?_, begins.indented, begins.flush, begins.blank, begins.balanced⟩
    have shape := begins.shape
    rw [Text.joinLines_cons] at shape ⊢
    rw [List.flatMap_append, ← List.append_assoc, shape]
    simp
  · have here : ∀ line ∈ first :: more, '\n' ∉ line := fun line member =>
      unbroken line (List.cons_subset_cons first (List.subset_append_left more following) member)
    have size := Text.length_splitLines (Text.joinLines (first :: more))
    rw [Text.splitLines_joinLines (by simp) here, begins.shape] at size
    have indentFeeds := List.count_eq_zero.mpr begins.flush
    have keywordFeeds := List.count_eq_zero.mpr flush_keyword
    have tailFeeds := List.count_eq_zero.mpr frame.flush
    simp only [List.count_append, List.length_cons] at size ⊢
    omega

theorem Balanced.exists_init (balanced : Balanced literal) : ∃ init, literal = init ++ ['\x7d'] := by
  obtain ⟨init, _, _, shape, -⟩ := BraceState.exists_init_of_readOn balanced.closed
  exact ⟨init, shape⟩

theorem unbroken_of_mem_ofText {segment : Segment} (member : segment ∈ Segment.ofText text)
    (within : line ∈ segment.lines)
    : '\n' ∉ line := by
  have among : line ∈ Text.splitLines text := by
    rw [← Segment.flatMap_lines_ofText]
    exact List.mem_flatMap.mpr ⟨_, member, within⟩
  exact Text.unbroken_of_mem_splitLines among

/-- The lines of a block are lines. -/
theorem lines_of_mem_ofText {block : Block} (member : .block block ∈ Segment.ofText text)
    : block.lines ≠ [] ∧ ∀ line ∈ block.lines, '\n' ∉ line := by
  refine ⟨?_, fun line within => unbroken_of_mem_ofText member within⟩
  obtain ⟨place, located⟩ := Segment.exists_mem_located 0 member
  obtain ⟨first, rest, count, -, -, -, lines, -⟩ :=
    (Segment.lieIn_located text).found place block located
  rw [lines]
  exact List.cons_ne_nil first _

end Block

end FeaturePress
