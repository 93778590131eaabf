import FeaturePress.Feature.Opening
import FeaturePress.Feature.Preparation
import FeaturePress.Proofs.Examples.Expansion
import FeaturePress.Proofs.Examples.Segments
import FeaturePress.Proofs.Feature.Markers
import FeaturePress.Proofs.Feature.Tagging
import FeaturePress.Proofs.StepGroup.Inlining

/-! Preparing keeps the opening of a feature. What leads up to the feature line holds no block, reference or
scenario, so the stages that work on these keep it line for line, and a marker in it changes no word that a
line begins with.
-/

namespace FeaturePress

namespace Text

variable {line word text : Text} {c d : Char}

-----------------------------------------------------------------------------------------
-- How a trimmed line begins
-----------------------------------------------------------------------------------------

theorem eq_of_startsWith_cons (begins : startsWith (d :: text) (c :: word) = true) : d = c := by
  obtain ⟨rest, shape⟩ := startsWith_iff.mp begins
  exact (List.cons.inj shape).1.symm

/-- A word without blanks stays in front when blanks are taken off the end. -/
theorem trimEnd_append (solid : ∀ c ∈ word, isBlank c = false) (text : Text)
    : trimEnd (word ++ text) = word ++ trimEnd text := by
  induction word with
  | nil => rfl
  | cons c word ih =>
      obtain ⟨here, others⟩ := List.forall_mem_cons.mp solid
      rw [List.cons_append, trimEnd_cons _ here, ih others, List.cons_append]

theorem startsWith_trimStart (begins : startsWith (trim line) word = true)
    : startsWith (trimStart line) word = true := by
  obtain ⟨rest, shape⟩ := startsWith_iff.mp begins
  obtain ⟨more, whole⟩ := isPrefix_trimEnd (trimStart line)
  exact startsWith_iff.mpr ⟨rest ++ more, by rw [← List.append_assoc, shape]; exact whole⟩

/-- Whether a trimmed line begins with a word without blanks is told by its beginning alone. -/
theorem startsWith_trim (solid : ∀ c ∈ word, isBlank c = false) (line : Text)
    : startsWith (trim line) word = startsWith (trimStart line) word := by
  rw [Bool.eq_iff_iff]
  refine ⟨startsWith_trimStart, fun begins => ?_⟩
  obtain ⟨rest, shape⟩ := startsWith_iff.mp begins
  exact startsWith_iff.mpr ⟨trimEnd rest, by rw [trim, ← shape, trimEnd_append solid]⟩

theorem trim_eq_nil_iff : trim line = [] ↔ trimStart line = [] := by
  constructor
  · intro empty
    cases shape : trimStart line with
    | nil => rfl
    | cons c rest =>
        rw [trim, shape, trimEnd_cons rest (isBlank_of_trimStart_eq_cons shape)] at empty
        cases empty
  · intro empty
    rw [trim, empty]
    rfl

/-- A carriage return at the end of a line is blank. -/
theorem trim_dropReturn (line : Text) : trim (dropReturn line) = trim line := by
  unfold dropReturn before?
  cases shorter : ['\r'].isSuffixOf? line with
  | none => rfl
  | some rest =>
      obtain rfl := List.append_eq_of_isSuffixOf?_eq_some shorter
      rw [Option.getD_some, trim, trim, trimStart, trimStart, List.dropWhile_append]
      split
      · next blank => rw [List.isEmpty_iff.mp blank]; rfl
      · simp [trimEnd, show isBlank '\r' = true from rfl]

-----------------------------------------------------------------------------------------
-- Lines in front of others
-----------------------------------------------------------------------------------------

/-- Lines in front of others are the first lines of the joined text. -/
theorem exists_splitLines_joinLines_append {lead : List Text} (nonempty : lead ≠ [])
    (unbroken : ∀ line ∈ lead, '\n' ∉ line) (later : List Text)
    : ∃ more, splitLines (joinLines (lead ++ later)) = lead ++ more := by
  by_cases last : later = []
  · exact ⟨[], by rw [last, List.append_nil, splitLines_joinLines nonempty unbroken]⟩
  · exact ⟨_, splitLines_joinLines_append last unbroken⟩

/-- The first character of joined lines that is not blank is the first one of a line, if any line has one. -/
theorem exists_trimStart_joinLines {lines : List Text} (visible : ∃ line ∈ lines, trimStart line ≠ [])
    (later : List Text)
    : ∃ line ∈ lines, ∃ c rest more, trimStart line = c :: rest
        ∧ trimStart (joinLines (lines ++ later)) = c :: more := by
  induction lines with
  | nil => simp at visible
  | cons first lines ih =>
      cases begins : trimStart first with
      | cons c rest =>
          obtain ⟨tail, joined⟩ := exists_joinLines_cons (lines ++ later)
          refine ⟨first, List.mem_cons_self .., c, rest, rest ++ tail, begins, ?_⟩
          rw [trimStart] at begins
          rw [List.cons_append, joined, trimStart, List.dropWhile_append, begins]
          rfl
      | nil =>
          obtain ⟨line, member, solid⟩ := visible
          have among : line ∈ lines :=
            (List.mem_cons.mp member).resolve_left fun same => solid (same ▸ begins)
          obtain ⟨second, others, rfl⟩ := List.exists_cons_of_ne_nil (List.ne_nil_of_mem among)
          obtain ⟨line, member, c, rest, more, begun, whole⟩ := ih ⟨line, among, solid⟩
          refine ⟨line, List.mem_cons_of_mem _ member, c, rest, more, begun, ?_⟩
          rw [List.cons_append] at whole
          rw [trimStart] at begins
          rw [List.cons_append, List.cons_append, joinLines_cons_cons, trimStart, List.dropWhile_append, begins]
          exact whole

end Text

namespace Opening

variable {line text content : Text} {lead front later : List Text} {word : Text} {c : Char}

-----------------------------------------------------------------------------------------
-- The opening of a feature
-----------------------------------------------------------------------------------------

/-- What the line of a feature begins with. -/
def keyword : Text := "Feature:".toList

theorem isBlank_keyword : ∀ c ∈ keyword, Text.isBlank c = false := by
  have solid : keyword.all (!Text.isBlank ·) = true := rfl
  simpa using solid

/-- The lines that open a feature: some that may stand before the feature line, and the feature line. -/
structure Opens (lead : List Text) : Prop where
  unbroken : ∀ line ∈ lead, '\n' ∉ line
  shape : ∃ front feature, lead = front ++ [feature]
    ∧ (∀ line ∈ front, isLeading (Text.trim line) = true)
    ∧ Text.startsWith (Text.trim feature) keyword = true

theorem Opens.ne_nil (opens : Opens lead) : lead ≠ [] := by
  obtain ⟨front, feature, rfl, -⟩ := opens.shape
  exact List.append_ne_nil_of_right_ne_nil front (List.cons_ne_nil _ _)

theorem isLeading_iff
    : isLeading (Text.trim line) = true
      ↔ Text.trimStart line = [] ∨ Text.startsWith (Text.trimStart line) ['#'] = true
        ∨ Text.startsWith (Text.trimStart line) ['@'] = true := by
  rw [isLeading, Bool.or_eq_true, Bool.or_eq_true, List.isEmpty_iff, Text.trim_eq_nil_iff,
    Text.startsWith_trim (List.forall_mem_singleton.mpr rfl),
    Text.startsWith_trim (List.forall_mem_singleton.mpr rfl), or_assoc]

/-- A feature line may not stand before another. -/
theorem isLeading_of_feature (feature : Text.startsWith (Text.trim line) keyword = true)
    : isLeading (Text.trim line) = false := by
  obtain ⟨rest, shape⟩ := Text.startsWith_iff.mp feature
  rw [← shape]
  rfl

/-- The first line that may not stand before the feature line is the same whether lines are terminated or are
the pieces between line feeds: a piece that is no line is blank.
-/
theorem find?_lines (text : Text)
    : ((Text.lines text).map Text.trim).find? (!isLeading ·)
      = ((Text.splitLines text).map Text.trim).find? (!isLeading ·) := by
  unfold Text.lines
  generalize Text.splitLines text = pieces
  fun_induction Text.linesOfPieces pieces with
  | case1 => rfl
  | case2 last empty =>
      rw [List.isEmpty_iff.mp empty]
      rfl
  | case3 last => rfl
  | case4 piece pieces _ ih =>
      rw [List.map_cons, List.map_cons, List.find?_cons, List.find?_cons, Text.trim_dropReturn, ih]

theorem startsWithFeature_iff
    : startsWithFeature content = true
      ↔ ∃ lead later, Opens lead ∧ content = Text.joinLines (lead ++ later) := by
  rw [startsWithFeature, find?_lines]
  constructor
  · intro starts
    cases found : ((Text.splitLines content).map Text.trim).find? (!isLeading ·) with
    | none => simp [found] at starts
    | some first =>
        rw [found] at starts
        obtain ⟨-, before, after, trimmed, leading⟩ := List.find?_eq_some_iff_append.mp found
        obtain ⟨front, behind, split, rfl, trimmedBehind⟩ := List.map_eq_append_iff.mp trimmed
        obtain ⟨feature, rest, rfl, rfl, -⟩ := List.map_eq_cons_iff.mp trimmedBehind
        have whole : Text.splitLines content = (front ++ [feature]) ++ rest := by
          rw [split, List.append_assoc]
          rfl
        refine ⟨front ++ [feature], rest, ⟨fun line member => ?_, front, feature, rfl, fun line member => ?_,
          starts⟩, by rw [← whole, Text.joinLines_splitLines]⟩
        · exact Text.unbroken_of_mem_splitLines (whole ▸ List.mem_append_left rest member)
        · simpa using leading _ (List.mem_map_of_mem member)
  · rintro ⟨lead, later, opens, rfl⟩
    obtain ⟨more, split⟩ := Text.exists_splitLines_joinLines_append opens.ne_nil opens.unbroken later
    obtain ⟨front, feature, rfl, leading, isFeature⟩ := opens.shape
    have none : (front.map Text.trim).find? (!isLeading ·) = none := by
      refine List.find?_eq_none.mpr fun trimmed member => ?_
      obtain ⟨line, inFront, rfl⟩ := List.mem_map.mp member
      simp [leading line inFront]
    rw [split, List.append_assoc, List.map_append, List.find?_append, none, Option.none_or, List.singleton_append,
      List.map_cons, List.find?_cons, isLeading_of_feature isFeature]
    exact isFeature

/-- What opens a feature stays in front of the text when the lines behind it are replaced. -/
theorem startsWithFeature_of_lines {lines lines' : List Text}
    (keeps : ∀ lead later, Opens lead → lines = lead ++ later → ∃ more, lines' = lead ++ more)
    (starts : startsWithFeature text = true) (split : Text.splitLines text = lines)
    : startsWithFeature (Text.joinLines lines') = true := by
  obtain ⟨lead, later, opens, rfl⟩ := startsWithFeature_iff.mp starts
  obtain ⟨more, shape⟩ := Text.exists_splitLines_joinLines_append opens.ne_nil opens.unbroken later
  obtain ⟨rest, same⟩ := keeps lead more opens (split.symm.trans shape)
  exact startsWithFeature_iff.mpr ⟨lead, rest, opens, congrArg Text.joinLines same⟩

-----------------------------------------------------------------------------------------
-- Lines that the stages keep
-----------------------------------------------------------------------------------------

/-- A line that opens a feature holds nothing, or begins as a comment, as tags or as a feature line does. -/
theorem Opens.head (opens : Opens lead) (member : line ∈ lead)
    : ∀ c ∈ (Text.trimStart line).head?, c = '#' ∨ c = '@' ∨ c = 'F' := by
  intro c first
  obtain ⟨rest, shape⟩ := List.head?_eq_some_iff.mp first
  obtain ⟨front, feature, rfl, leading, isFeature⟩ := opens.shape
  rcases List.mem_append.mp member with inFront | last
  · rcases isLeading_iff.mp (leading line inFront) with blank | comment | tags
    · rw [blank] at shape
      cases shape
    · rw [shape] at comment
      exact .inl (Text.eq_of_startsWith_cons comment)
    · rw [shape] at tags
      exact .inr (.inl (Text.eq_of_startsWith_cons tags))
  · obtain rfl := List.mem_singleton.mp last
    rw [Text.startsWith_trim isBlank_keyword, shape] at isFeature
    exact .inr (.inr (Text.eq_of_startsWith_cons isFeature))

theorem Opens.head?_ne (opens : Opens lead) (member : line ∈ lead) (other : c ≠ '#' ∧ c ≠ '@' ∧ c ≠ 'F')
    : (Text.trimStart line).head? ≠ some c := by
  intro first
  rcases opens.head member c first with same | same | same
  · exact other.1 same
  · exact other.2.1 same
  · exact other.2.2 same

/-- A line that opens a feature begins with no other word. -/
theorem Opens.startsWith_eq_false (opens : Opens lead) (member : line ∈ lead)
    (other : c ≠ '#' ∧ c ≠ '@' ∧ c ≠ 'F') (word : Text)
    : Text.startsWith (Text.trimStart line) (c :: word) = false := by
  rw [Bool.eq_false_iff]
  intro begins
  obtain ⟨rest, shape⟩ := Text.startsWith_iff.mp begins
  exact opens.head?_ne member other (by rw [← shape]; rfl)

theorem Opens.startsWith_trim_eq_false (opens : Opens lead) (member : line ∈ lead)
    (other : c ≠ '#' ∧ c ≠ '@' ∧ c ≠ 'F') (word : Text)
    : Text.startsWith (Text.trim line) (c :: word) = false := by
  have without := opens.startsWith_eq_false member other word
  rw [Bool.eq_false_iff] at without ⊢
  exact fun begins => without (Text.startsWith_trimStart begins)

/-- The first character of a feature that is not blank begins a comment, tags or the feature line. -/
theorem exists_trimStart_of_startsWithFeature (starts : startsWithFeature text = true)
    : ∃ c rest, Text.trimStart text = c :: rest ∧ (c = '#' ∨ c = '@' ∨ c = 'F') := by
  obtain ⟨lead, later, opens, rfl⟩ := startsWithFeature_iff.mp starts
  obtain ⟨front, feature, shape, -, isFeature⟩ := opens.shape
  have visible : ∃ line ∈ lead, Text.trimStart line ≠ [] := by
    refine ⟨feature, shape ▸ List.mem_append_right front (List.mem_singleton_self feature), fun blank => ?_⟩
    rw [Text.trim_eq_nil_iff.mpr blank] at isFeature
    cases isFeature
  obtain ⟨line, member, c, rest, more, begins, whole⟩ := Text.exists_trimStart_joinLines visible later
  exact ⟨c, more, whole, opens.head member c (by rw [begins]; rfl)⟩

/-- No block begins before the feature line or on it. -/
theorem Opens.ofLinesFrom_append (opens : Opens lead) (later : List Text)
    : Segment.ofLinesFrom 0 (lead ++ later) = lead.map .line ++ Segment.ofLinesFrom 0 later :=
  Segment.ofLinesFrom_append_of_plain later fun _ member =>
    opens.startsWith_eq_false member (by decide) "xamples:".toList

theorem Opens.expandLine_eq (opens : Opens lead) (member : line ∈ lead) (catalog : Catalog)
    : Reference.expandLine catalog line = [line] := by
  refine Reference.expandLine_of_not_refers fun entry ⟨reference, read, _⟩ => ?_
  have plain : Text.startsWith (Text.trim line) Reference.lead = false :=
    opens.startsWith_trim_eq_false member (by decide : '*' ≠ '#' ∧ '*' ≠ '@' ∧ '*' ≠ 'F') " Step Group:".toList
  rw [Text.startsWith, Option.isSome_eq_false_iff, Option.isNone_iff_eq_none] at plain
  rw [Reference.ofLine?, plain] at read
  cases read

theorem Opens.isScenario_eq_false (opens : Opens lead) (member : line ∈ lead)
    : SourceTag.isScenario line = false := by
  have plain {c : Char} (other : c ≠ '#' ∧ c ≠ '@' ∧ c ≠ 'F') (word : Text) :=
    opens.startsWith_trim_eq_false member other word
  rw [SourceTag.isScenario, List.any_eq_false]
  intro scenario among
  rw [Bool.not_eq_true]
  simp only [SourceTag.scenarioKeywords, List.mem_cons, List.not_mem_nil, or_false] at among
  rcases among with rfl | rfl | rfl | rfl
  · exact plain (by decide) "cenario:".toList
  · exact plain (by decide) "cenario Outline:".toList
  · exact plain (by decide) "cenario Template:".toList
  · exact plain (by decide) "xample:".toList

-----------------------------------------------------------------------------------------
-- The stages
-----------------------------------------------------------------------------------------

theorem startsWithFeature_substitute (value : Text → Text) (starts : startsWithFeature text = true)
    : startsWithFeature (Variables.substitute value text) = true := by
  refine startsWithFeature_of_lines (fun lead later opens split => ?_) starts rfl
  rw [Segment.ofText, split, opens.ofLinesFrom_append, List.flatMap_append, List.flatMap_map]
  exact ⟨_, congrArg (· ++ _) (List.flatMap_singleton' lead)⟩

theorem exists_of_expandSegments {context : ExamplesContext} {segments : List Segment} {lines : List Text}
    (expanded : context.expandSegments (lead.map .line ++ segments) = .ok lines)
    : ∃ more, lines = lead ++ more := by
  induction lead generalizing lines with
  | nil => exact ⟨lines, rfl⟩
  | cons first lead ih =>
      rw [List.map_cons, List.cons_append, ExamplesContext.expandSegments_cons] at expanded
      cases rest : context.expandSegments (lead.map .line ++ segments) with
      | error fault => rw [rest] at expanded; cases expanded
      | ok others =>
          rw [rest] at expanded
          cases expanded
          obtain ⟨more, rfl⟩ := ih rest
          exact ⟨more, rfl⟩

theorem startsWithFeature_expand {context : ExamplesContext} (starts : startsWithFeature text = true)
    (expanded : context.expand text = .ok content)
    : startsWithFeature content = true := by
  unfold ExamplesContext.expand at expanded
  cases found : context.expandSegments (Segment.ofText text) with
  | error fault => rw [found] at expanded; cases expanded
  | ok lines =>
      rw [found] at expanded
      cases expanded
      refine startsWithFeature_of_lines (fun lead later opens split => ?_) starts rfl
      rw [Segment.ofText, split, opens.ofLinesFrom_append] at found
      exact exists_of_expandSegments found

theorem startsWithFeature_inline (catalog : Catalog) (starts : startsWithFeature text = true)
    : startsWithFeature (Reference.inline catalog text) = true := by
  refine startsWithFeature_of_lines (fun lead later opens split => ?_) starts rfl
  have kept : lead.flatMap (Reference.expandLine catalog) = lead.flatMap ([·]) :=
    List.flatMap_congr fun line member => opens.expandLine_eq member catalog
  rw [split, List.flatMap_append, kept]
  exact ⟨_, congrArg (· ++ _) (List.flatMap_singleton' lead)⟩

/-- A marker behind the word that a line begins with leaves the word. -/
theorem startsWith_toComments (nonempty : word ≠ []) (solid : ∀ c ∈ word, Text.isBlank c = false)
    (without : '[' ∉ word) (begins : Text.startsWith (Text.trimStart line) word = true)
    : Text.startsWith (Text.trimStart (SmartMarker.toComments line)) word = true := by
  obtain ⟨rest, shape⟩ := Text.startsWith_iff.mp begins
  have blank : ∀ c ∈ Text.indentation line, Text.isBlank c = true := fun _ => Text.isBlank_of_mem_indentation
  have before : '[' ∉ Text.indentation line ++ word := by
    refine List.not_mem_append (fun member => ?_) without
    cases blank '[' member
  have whole : line = (Text.indentation line ++ word) ++ rest := by
    rw [List.append_assoc, shape, Text.indentation_append_trimStart]
  obtain ⟨c, word, rfl⟩ := List.exists_cons_of_ne_nil nonempty
  rw [whole, SmartMarker.toComments_append_left before, List.append_assoc, List.cons_append,
    Text.trimStart_append_cons blank _ (solid c (List.mem_cons_self ..))]
  exact Text.startsWith_iff.mpr ⟨SmartMarker.toComments rest, rfl⟩

theorem isLeading_toComments (leading : isLeading (Text.trim line) = true)
    : isLeading (Text.trim (SmartMarker.toComments line)) = true := by
  rw [isLeading_iff] at leading ⊢
  rcases leading with blank | comment | tags
  · have without : '[' ∉ line := fun member => by
      have := List.dropWhile_eq_nil_iff.mp blank '[' member
      cases this
    have same := SmartMarker.toComments_append_left without []
    rw [List.append_nil] at same
    rw [same, show SmartMarker.toComments [] = [] from rfl, List.append_nil]
    exact .inl blank
  · exact .inr (.inl (startsWith_toComments (List.cons_ne_nil _ _) (List.forall_mem_singleton.mpr rfl)
      (by decide) comment))
  · exact .inr (.inr (startsWith_toComments (List.cons_ne_nil _ _) (List.forall_mem_singleton.mpr rfl)
      (by decide) tags))

/-- Lines that open a feature do so with comments in the place of their markers. -/
theorem Opens.map_toComments (opens : Opens lead) : Opens (lead.map SmartMarker.toComments) where
  unbroken := by
    intro line member
    obtain ⟨before, isLine, rfl⟩ := List.mem_map.mp member
    exact SmartMarker.unbroken_toComments (opens.unbroken before isLine)
  shape := by
    obtain ⟨front, feature, rfl, leading, isFeature⟩ := opens.shape
    refine ⟨front.map SmartMarker.toComments, SmartMarker.toComments feature, List.map_append, ?_, ?_⟩
    · intro line member
      obtain ⟨before, inFront, rfl⟩ := List.mem_map.mp member
      exact isLeading_toComments (leading before inFront)
    · rw [Text.startsWith_trim isBlank_keyword] at isFeature ⊢
      exact startsWith_toComments (by decide) isBlank_keyword (by decide) isFeature

theorem startsWithFeature_toComments (starts : startsWithFeature text = true)
    : startsWithFeature (SmartMarker.toComments text) = true := by
  obtain ⟨lead, later, opens, rfl⟩ := startsWithFeature_iff.mp starts
  refine startsWithFeature_iff.mpr ⟨_, later.map SmartMarker.toComments, opens.map_toComments, ?_⟩
  rw [SmartMarker.toComments_joinLines (List.append_ne_nil_of_left_ne_nil opens.ne_nil later), List.map_append]

/-- Lines that are no scenarios stay in front when those behind them are tagged. -/
theorem exists_tagLines_append {path : Text} (plain : ∀ line ∈ lead, SourceTag.isScenario line = false)
    (tagged : Bool) (later : List Text)
    : ∃ more, SourceTag.tagLines path tagged (lead ++ later) = lead ++ more := by
  induction lead generalizing tagged with
  | nil => exact ⟨_, rfl⟩
  | cons first lead ih =>
      obtain ⟨here, others⟩ := List.forall_mem_cons.mp plain
      obtain ⟨more, same⟩ := ih others (SourceTag.tagsOn tagged first)
      refine ⟨more, ?_⟩
      rw [List.cons_append, SourceTag.tagLines_cons_kept (by rw [here, Bool.and_false]), same, List.cons_append]

theorem startsWithFeature_tagScenarios (path : Text) (starts : startsWithFeature text = true)
    : startsWithFeature (SourceTag.tagScenarios path text) = true := by
  refine startsWithFeature_of_lines (fun lead later opens split => ?_) starts rfl
  rw [split]
  exact exists_tagLines_append (fun line member => opens.isScenario_eq_false member) false later

/-- The prepared form of a text that opens as a feature opens as one: each stage keeps the opening. -/
theorem startsWithFeature_transform {preparation : Preparation} {context : ExamplesContext} {relative : Text}
    (starts : startsWithFeature text = true)
    (transformed : preparation.transform context relative text = .ok content)
    : startsWithFeature content = true := by
  unfold Preparation.transform at transformed
  cases found : context.expand (Variables.substitute preparation.value text) with
  | error fault => rw [found] at transformed; cases transformed
  | ok expanded =>
      rw [found] at transformed
      cases transformed
      have substituted := startsWithFeature_substitute preparation.value starts
      have inlined := startsWithFeature_inline preparation.catalog (startsWithFeature_expand substituted found)
      exact startsWithFeature_tagScenarios relative (startsWithFeature_toComments inlined)

end Opening

end FeaturePress
