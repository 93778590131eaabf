import FeaturePress.Proofs.Examples.Closing
import FeaturePress.Proofs.Examples.Places
import FeaturePress.Proofs.Examples.Quoting
import FeaturePress.Proofs.SortedMap

/-! Values on their way to what a literal asks for. Values are put into a literal before it is read, and yet
reading it first would make no difference, if placeholders stand in quoted values as they are and no value
holds a backslash or the quotation mark that it comes between.
-/

namespace FeaturePress

namespace Variables

open Literal (Token IsToken IsEntry Reads Quoted QuotedEntry isQuote entryOf)

-----------------------------------------------------------------------------------------
-- Literals with values
-----------------------------------------------------------------------------------------

/-- A text stands for itself between two quotation marks. -/
def Verbatim (mark : Char) (text : Text) : Prop :=
  ∀ c ∈ text, c ≠ mark ∧ c ≠ '\\' ∧ c ≠ '\n'

instance {mark : Char} {text : Text} : Decidable (Verbatim mark text) :=
  List.decidableBAll _ text

/-- The parts of a quoted value as they are written: a backslash may stand before a character, and before a
placeholder if its value has a character for it, but in no placeholder. Values stand for themselves.
-/
inductive Unescapes (value : Text → Text) (mark : Char)
    : List (Text.Piece Text) → List (Text.Piece Text) → Prop
  | nil : Unescapes value mark [] []
  | plain {c found written} (other : c ≠ mark) (noEscape : c ≠ '\\')
    (unescapes : Unescapes value mark found written)
    : Unescapes value mark (.char c :: found) (.char c :: written)
  | escaped {c found written} (unfed : c ≠ '\n') (unescapes : Unescapes value mark found written)
    : Unescapes value mark (.char c :: found) (.char '\\' :: .char c :: written)
  | placeholder {key found written} (verbatim : Verbatim mark (value key))
    (unescapes : Unescapes value mark found written)
    : Unescapes value mark (.mark key :: found) (.mark key :: written)
  | taken {key found written} (filled : value key ≠ []) (verbatim : Verbatim mark (value key))
    (unescapes : Unescapes value mark found written)
    : Unescapes value mark (.mark key :: found) (.char '\\' :: .mark key :: written)

/-- A value of a literal takes values in: it is a bare word without placeholders, or a quoted text with the
placeholders that it is written with, each closed in it.
-/
inductive Takes (value : Text → Text) : Token → Prop
  | bare {token : Token} (unquoted : ∀ c ∈ token.written.head?, isQuote c = false)
    (without : ¬ opening <:+: token.written)
    : Takes value token
  | quoted {token : Token} {mark raw} (quotes : isQuote mark = true)
    (shape : token.written = mark :: (raw ++ [mark])) (closed : Closed raw)
    (unescapes : Unescapes value mark (parts token.value) (parts raw))
    : Takes value token

/-- A key or a value with values in it. -/
def fillToken (value : Text → Text) (token : Token) : Token :=
  ⟨substituteText value token.written, substituteText value token.value⟩

/-- What a literal asks for with values in it; a filter may be blank then. -/
def fillSpec (value : Text → Text) (spec : ExamplesSpec) : ExamplesSpec where
  dataFile := substituteText value spec.dataFile
  filter := (spec.filter.map (substituteText value)).filter (!Text.isBlankText ·)
  sheetName := spec.sheetName.map (substituteText value)

variable {c mark : Char} {value : Text → Text} {text raw rest left lead tail : Text} {token key : Token}
  {terminators : List Char} {entries : List (Token × Token)} {found written : List (Text.Piece Text)}

-----------------------------------------------------------------------------------------
-- Quoted values
-----------------------------------------------------------------------------------------

theorem solid_of_isQuote (quotes : isQuote mark = true) : mark ∉ opening ∧ mark ≠ '$' ∧ mark ≠ '\\' := by
  have plain : ∀ c ∈ opening, isQuote c = false := by simp [opening, isQuote]
  refine ⟨fun member => ?_, ?_, ?_⟩
  · cases quotes.symm.trans (plain mark member)
  · rintro rfl
    cases quotes
  · rintro rfl
    cases quotes

/-- Between quotation marks values take the places of placeholders that are closed there. -/
theorem substituteText_quoted (quotes : isQuote mark = true) (closed : Closed raw) (rest : Text)
    : substituteText value (mark :: (raw ++ [mark]) ++ rest)
      = mark :: (substituteText value raw ++ [mark]) ++ substituteText value rest := by
  obtain ⟨outside, other, -⟩ := solid_of_isQuote quotes
  have apart : Apart raw (mark :: rest) := closed.apart (.inr fun c first => by
    cases first
    exact outside)
  have shape : mark :: (raw ++ [mark]) ++ rest = mark :: (raw ++ mark :: rest) := by simp
  rw [shape, substituteText_cons other, substituteText_append apart, substituteText_cons other]
  simp

theorem Verbatim.append (verbatim : Verbatim mark lead) {inner : Text}
    (quoted : Quoted mark inner text ∧ Between mark text)
    : Quoted mark (lead ++ inner) (lead ++ text) ∧ Between mark (lead ++ text) := by
  induction lead with
  | nil => exact quoted
  | cons c lead ih =>
      obtain ⟨⟨other, noEscape, -⟩, others⟩ := List.forall_mem_cons.mp verbatim
      obtain ⟨quoted, between⟩ := ih others
      exact ⟨.plain other noEscape quoted, .plain other noEscape between⟩

/-- Values that stand for themselves are read back with the text between them, by induction on its parts. -/
theorem Unescapes.quoted (unescapes : Unescapes value mark found written)
    : Quoted mark (Text.writePieces value found) (Text.writePieces value written)
      ∧ Between mark (Text.writePieces value written) := by
  induction unescapes with
  | nil => exact ⟨.nil, .nil⟩
  | plain other noEscape _ ih => exact ⟨.plain other noEscape ih.1, .plain other noEscape ih.2⟩
  | escaped unfed _ ih => exact ⟨.escaped ih.1, .escaped unfed ih.2⟩
  | placeholder verbatim _ ih => exact verbatim.append ih
  | @taken key found written filled verbatim _ ih =>
      simp only [Text.writePieces_mark, Text.writePieces_char]
      cases shape : value key with
      | nil => exact absurd shape filled
      | cons c rest =>
          rw [shape] at verbatim
          obtain ⟨⟨-, -, unfed⟩, others⟩ := List.forall_mem_cons.mp verbatim
          obtain ⟨quoted, between⟩ := Verbatim.append others ih
          exact ⟨.escaped quoted, .escaped unfed between⟩

/-- A quoted value without backslashes is written as it is. -/
theorem unescapes_of_verbatim (verbatim : Verbatim mark text)
    (values : ∀ key ∈ keysOfText text, Verbatim mark (value key))
    : Unescapes value mark (parts text) (parts text) := by
  have divides := divides_parts text
  rw [divides.keysOfText_eq] at values
  generalize parts text = found at divides values ⊢
  induction divides with
  | nil => exact .nil
  | char _ _ ih =>
      obtain ⟨⟨other, noEscape, -⟩, others⟩ := List.forall_mem_cons.mp verbatim
      exact .plain other noEscape (ih others values)
  | mark _ _ ih =>
      obtain ⟨here, others⟩ := List.forall_mem_cons.mp values
      exact .placeholder here (ih (fun c member => verbatim c (List.mem_append_right _ member)) others)

theorem quoted_substituteText (unescapes : Unescapes value mark (parts text) (parts raw))
    : Quoted mark (substituteText value text) (substituteText value raw)
      ∧ Between mark (substituteText value raw) := by
  rw [← writePieces_parts, ← writePieces_parts]
  exact unescapes.quoted

-----------------------------------------------------------------------------------------
-- Reading literals with values
-----------------------------------------------------------------------------------------

theorem isInfix_trim (text : Text) : Text.trim text <:+: text :=
  (Text.isPrefix_trimEnd _).isInfix.trans (List.dropWhile_suffix _).isInfix

theorem fillToken_of_bare (isToken : IsToken terminators token left)
    (unquoted : ∀ c ∈ token.written.head?, isQuote c = false) (without : ¬ opening <:+: token.written)
    : fillToken value token = token := by
  have inside : ¬ opening <:+: token.value := fun within => by
    rw [(isToken.bare unquoted).1] at within
    exact without (within.trans (isInfix_trim token.written))
  rw [fillToken, substituteText_of_not_opening without, substituteText_of_not_opening inside]

theorem written_fillToken (quotes : isQuote mark = true) (closed : Closed raw)
    (shape : token.written = mark :: (raw ++ [mark]))
    : (fillToken value token).written = mark :: (substituteText value raw ++ [mark]) := by
  have alone : substituteText value (mark :: (raw ++ [mark]) ++ []) = _ :=
    substituteText_quoted quotes closed []
  rw [List.append_nil] at alone
  rw [fillToken, shape, alone]
  exact List.append_nil _

/-- A value with values in it begins as it did, and it is read where it stands in the text with them. -/
theorem Takes.fill (takes : Takes value token) (isToken : IsToken [',', '\x7d'] token left)
    : (fillToken value token).written.head? = token.written.head?
      ∧ substituteText value (token.written ++ left)
        = (fillToken value token).written ++ substituteText value left
      ∧ IsToken [',', '\x7d'] (fillToken value token) (substituteText value left) := by
  cases takes with
  | bare unquoted without =>
      obtain ⟨trimmed, stops⟩ := isToken.bare unquoted
      have outside : ∀ c ∈ left.head?, c ∉ opening := fun c first => by
        have stop : c = ',' ∨ c = '\x7d' := by simpa using stops c first
        rcases stop with rfl | rfl <;> decide
      rw [fillToken_of_bare isToken unquoted without, substituteText_append_of_not_opening without outside]
      refine ⟨rfl, rfl, isToken.congr (head?_substituteText (fun dollar => ?_) value)⟩
      exact outside '$' dollar (by decide)
  | @quoted mark raw quotes shape closed unescapes =>
      obtain ⟨-, -, noEscape⟩ := solid_of_isQuote quotes
      obtain ⟨quoted, -⟩ := quoted_substituteText unescapes
      have written := @written_fillToken _ value _ _ quotes closed shape
      rw [written, shape, substituteText_quoted quotes closed]
      refine ⟨rfl, rfl, ?_⟩
      rw [IsToken, written, List.cons_append, List.append_assoc, Literal.readToken, if_pos quotes]
      exact Literal.readEscaped_quoted noEscape quoted _

theorem Takes.even (takes : Takes value token) (isToken : IsToken terminators token left)
    (even : token.Even)
    : (fillToken value token).Even := by
  cases takes with
  | bare unquoted without => rwa [fillToken_of_bare isToken unquoted without]
  | @quoted mark raw quotes shape closed unescapes =>
      refine .inr ?_
      rw [written_fillToken quotes closed shape]
      exact .quoted quotes (quoted_substituteText unescapes).2 .nil

/-- An entry with values in it begins as it did. -/
theorem fill_isEntry {input : Text} (isEntry : IsEntry key token input left)
    (without : ¬ opening <:+: key.written) (takes : Takes value token)
    : (substituteText value input).head? = input.head?
      ∧ IsEntry key (fillToken value token) (substituteText value input) (substituteText value left) := by
  cases isEntry with
  | @intro before after _ d more blankBefore blankAfter starts solid isKey isValue =>
      obtain ⟨head, written, isValue⟩ := takes.fill isValue
      have keyEdge : ∀ c ∈ (before ++ ':' :: (after ++ (token.written ++ left))).head?, c ∉ opening := by
        have solid : ∀ c ∈ opening, c ≠ ':' ∧ Text.isBlank c = false := by simp [opening, Text.isBlank]
        intro c first inside
        cases before with
        | nil =>
            cases first
            exact (solid _ inside).1 rfl
        | cons d before =>
            cases first
            cases (solid _ inside).2.symm.trans (blankBefore _ (List.mem_cons_self ..))
      have blanks : '$' ∉ before ++ ':' :: after := by
        simp [dollar_not_mem_of_blank blankBefore, dollar_not_mem_of_blank blankAfter]
      have shape : substituteText value
            (key.written ++ (before ++ ':' :: (after ++ (token.written ++ left))))
          = key.written ++ (before
            ++ ':' :: (after ++ ((fillToken value token).written ++ substituteText value left))) := by
        have colon : before ++ ':' :: (after ++ (token.written ++ left))
            = before ++ ':' :: after ++ (token.written ++ left) := by simp
        rw [substituteText_append_of_not_opening without keyEdge, colon, substituteText_append_left blanks,
          written]
        simp
      obtain ⟨e, lead, keyShape, -⟩ := Literal.exists_written_of_readToken isKey
      have keyShape : key.written = e :: lead := List.append_cancel_right keyShape
      rw [shape]
      refine ⟨by rw [keyShape]; rfl, ?_⟩
      cases filled : (fillToken value token).written with
      | nil =>
          rw [filled, starts] at head
          cases head
      | cons f front =>
          rw [filled, starts] at head
          obtain rfl : f = d := Option.some.inj head
          rw [← filled]
          exact .intro blankBefore blankAfter filled solid (isKey.congr (by simp)) isValue

/-- Reading goes over the same entries with values in them, by induction on what is read. -/
theorem fill_reads {input : Text} (reads : Reads input entries tail)
    (keys : ∀ entry ∈ entries, ¬ opening <:+: entry.1.written)
    (takes : ∀ entry ∈ entries, Takes value entry.2)
    : Reads (substituteText value input)
        (entries.map fun entry => (entry.1, fillToken value entry.2)) (substituteText value tail) := by
  induction reads with
  | close =>
      rw [substituteText_cons (by decide)]
      exact .close
  | @separator c rest _ _ separates _ ih =>
      have other : c ≠ '$' := by
        rintro rfl
        cases separates
      rw [substituteText_cons other]
      exact .separator separates (ih keys takes)
  | @entry key token c rest left _ _ plain opens isEntry _ ih =>
      obtain ⟨keyHere, keys⟩ := List.forall_mem_cons.mp keys
      obtain ⟨takesHere, takes⟩ := List.forall_mem_cons.mp takes
      obtain ⟨head, again⟩ := fill_isEntry isEntry keyHere takesHere
      cases shape : substituteText value (c :: rest) with
      | nil =>
          rw [shape] at head
          cases head
      | cons d more =>
          rw [shape] at head again
          obtain rfl : d = c := Option.some.inj head
          exact .entry plain opens again (ih keys takes)

theorem fill_reads_whole {body : Text} (reads : Reads body entries [])
    (keys : ∀ entry ∈ entries, ¬ opening <:+: entry.1.written)
    (takes : ∀ entry ∈ entries, Takes value entry.2)
    : Reads (substituteText value body)
        (entries.map fun entry => (entry.1, fillToken value entry.2)) [] := by
  have again := fill_reads reads keys takes
  rwa [substituteText_nil] at again

/-- A blank filter has no placeholders. -/
theorem filter_map_substituteText (filter : Option Text)
    : ((filter.filter (!Text.isBlankText ·)).map (substituteText value)).filter (!Text.isBlankText ·)
      = (filter.map (substituteText value)).filter (!Text.isBlankText ·) := by
  cases filter with
  | none => rfl
  | some filter =>
      cases blank : Text.isBlankText filter with
      | false => simp [Option.filter, blank]
      | true =>
          have stays : substituteText value filter = filter :=
            substituteText_of_not_mem (.inl (dollar_not_mem_of_blank (List.all_eq_true.mp blank))) value
          simp [Option.filter, blank, stays]

/-- What a literal with values in it asks for. -/
theorem ofLiteral?_fill {body : Text} (reads : Reads body entries [])
    (keys : ∀ entry ∈ entries, ¬ opening <:+: entry.1.written)
    (takes : ∀ entry ∈ entries, Takes value entry.2)
    : ExamplesSpec.ofLiteral? (substituteText value ('\x7b' :: body))
      = (ExamplesSpec.ofLiteral? ('\x7b' :: body)).map (fillSpec value) := by
  have again := fill_reads_whole reads keys takes
  have pairs : (entries.map fun entry => (entry.1, fillToken value entry.2)).map entryOf
      = (entries.map entryOf).map fun pair => (pair.1, substituteText value pair.2) := by
    rw [List.map_map, List.map_map]
    rfl
  rw [substituteText_cons (by decide)]
  simp only [ExamplesSpec.ofLiteral?, reads.entries?_eq, again.entries?_eq, pairs, Option.bind_eq_bind,
    Option.bind_some, SortedMap.find?_ofList_map]
  cases (SortedMap.ofList (entries.map entryOf)).find? "datafile".toList with
  | none => rfl
  | some dataFile =>
      simp only [Option.map_some, Option.bind_some, Option.pure_def, fillSpec, filter_map_substituteText]

/-- The last brace of a literal closes the first with values in it as well. -/
theorem balanced_fill {body : Text} (reads : Reads body entries [])
    (even : ∀ entry ∈ entries, entry.1.Even ∧ entry.2.Even)
    (keys : ∀ entry ∈ entries, ¬ opening <:+: entry.1.written)
    (takes : ∀ entry ∈ entries, Takes value entry.2)
    : Block.Balanced (substituteText value ('\x7b' :: body)) := by
  rw [substituteText_cons (by decide)]
  refine Block.balanced_of_reads (fill_reads_whole reads keys takes) fun pair member => ?_
  obtain ⟨entry, among, rfl⟩ := List.mem_map.mp member
  obtain ⟨rest, isToken⟩ := reads.exists_isToken among
  exact ⟨(even entry among).1, (takes entry among).even isToken (even entry among).2⟩

/-- A value reaches what a literal asks for as it is: the block of the literal is found with values in it where
it was without them, and its literal asks for what it asked for with values in place of placeholders.
-/
theorem values_reach_spec {before : List Text} {indent gap body : Text} (unfed : ∀ key, '\n' ∉ value key)
    (plain
      : ∀ line ∈ before,
          '\n' ∉ line ∧ Text.startsWith (Text.trimStart line) Block.keyword = false)
    (indented : Text.isBlankText indent = true) (flush : '\n' ∉ indent)
    (blank : Text.isBlankText gap = true) (reads : Reads body entries [])
    (even : ∀ entry ∈ entries, entry.1.Even ∧ entry.2.Even)
    (keys : ∀ entry ∈ entries, ¬ opening <:+: entry.1.written)
    (takes : ∀ entry ∈ entries, Takes value entry.2) (tail : Text)
    : let literal := '\x7b' :: body
      let text := Text.joinLines (before ++ [indent ++ (Block.keyword ++ (gap ++ (literal ++ tail)))])
      ∃ block filled,
        (Segment.located 0 (Segment.ofText text)).head? = some (before.length, block)
        ∧ block.literal = literal
        ∧ (Segment.located 0 (Segment.ofText (substitute value text))).head? = some (before.length, filled)
        ∧ filled.lines = block.lines.map (substituteLine value)
        ∧ filled.literal = substituteText value literal
        ∧ ExamplesSpec.ofLiteral? filled.literal
          = (ExamplesSpec.ofLiteral? literal).map (fillSpec value) := by
  intro literal text
  have begins : Block.Begins _ indent gap literal tail :=
    ⟨rfl, List.all_eq_true.mp indented, flush, List.all_eq_true.mp blank,
      Block.balanced_of_reads reads even⟩
  obtain ⟨back, segments⟩ := begins.exists_ofText_joinLines plain
  refine ⟨_, _, ?_, rfl,
    head?_located_substitute unfed segments (fun line member => (plain line member).2)
      (balanced_fill reads even keys takes), rfl, rfl, ofLiteral?_fill reads keys takes⟩
  rw [segments, Segment.located_lines_append, Nat.zero_add]
  rfl

/-- Placeholders between quotes of one kind, with values that hold quotes of the other kind and a brace. -/
theorem values_reach_spec_paths
    : let entries : List QuotedEntry :=
        [⟨"datafile".toList, "$\x7benv.DIR\x7d/$\x7benv.FILE\x7d".toList, '\x27', [], [], [' '], [], rfl, rfl,
            rfl, rfl, rfl⟩,
          ⟨"filter".toList, "n == '1'".toList, '\x22', [' '], [], [' '], [], rfl, rfl, rfl, rfl, rfl⟩]
      let value : Text → Text := fun key => if key = "DIR".toList then "d\"\x7b".toList else "a.csv".toList
      let literal := QuotedEntry.literal entries
      let text := Text.joinLines ([] ++ [[] ++ (Block.keyword ++ ([' '] ++ (literal ++ [])))])
      text = "Examples: \x7bdatafile: '$\x7benv.DIR\x7d/$\x7benv.FILE\x7d', filter: \"n == '1'\"\x7d".toList
        ∧ ∃ filled, (Segment.located 0 (Segment.ofText (substitute value text))).head? = some (0, filled)
          ∧ ExamplesSpec.ofLiteral? filled.literal
            = some ⟨"d\"\x7b/a.csv".toList, some "n == '1'".toList, none⟩ := by
  intro entries value literal text
  have isName : ∀ entry ∈ entries, Literal.IsName entry.key :=
    List.forall_mem_cons.mpr ⟨Literal.isName_of_lowerAscii rfl (by decide) (by decide),
      List.forall_mem_singleton.mpr (Literal.isName_of_lowerAscii rfl (by decide) (by decide))⟩
  have unfed : ∀ key, '\n' ∉ value key := fun key => by
    simp only [value]
    split <;> decide
  have closed : Closed "$\x7benv.DIR\x7d/$\x7benv.FILE\x7d".toList :=
    closed_concat_brace "$\x7benv.DIR\x7d/$\x7benv.FILE".toList
  have takes : ∀ entry ∈ entries.map fun entry => (entry.keyToken, entry.valueToken), Takes value entry.2 :=
    List.forall_mem_cons.mpr
      ⟨.quoted rfl rfl closed (unescapes_of_verbatim (by decide) (by decide +kernel)),
        List.forall_mem_singleton.mpr
          (.quoted rfl rfl (closed_of_not_opening (by decide))
            (unescapes_of_verbatim (by decide) (by decide +kernel)))⟩
  obtain ⟨block, filled, -, -, found, -, -, spec⟩ :=
    values_reach_spec unfed (List.forall_mem_nil _) (rfl : Text.isBlankText [] = true) List.not_mem_nil
      (rfl : Text.isBlankText [' '] = true) (Literal.reads_inside isName [])
      (Literal.even_of_isName isName) (by decide) takes []
  refine ⟨by decide, filled, found, ?_⟩
  rw [spec]
  decide +kernel

/-- Reading first makes a difference for a value with the quotation mark, which hides the block or asks for
more, for one with a backslash, for a filter that turns blank, for a backslash in a placeholder or before one
without value, and where the quotes of bare words make a placeholder stand outside of quotes.
-/
theorem values_read_otherwise
    : let text := "Examples: \x7bdatafile: '$\x7benv.X\x7d'\x7d".toList
      let literal := "\x7bdatafile: '$\x7benv.X\x7d'\x7d".toList
      let filter := "\x7bdatafile: d, filter: '$\x7benv.X\x7d'\x7d".toList
      let before := "\x7bdatafile: '\\$\x7benv.X\x7d'\x7d".toList
      let inside := "\x7bdatafile: '$\\\x7benv.X\x7d'\x7d".toList
      let word := "Examples: \x7bk: a'b, datafile: '$\x7benv.X\x7d', m: c'd\x7d".toList
      ExamplesSpec.ofLiteral? literal = some ⟨"$\x7benv.X\x7d".toList, none, none⟩
        ∧ Segment.located 0 (Segment.ofText (substitute (fun _ => "a'b.csv".toList) text)) = []
        ∧ ExamplesSpec.ofLiteral? (substituteLine (fun _ => "a', filter: 'x".toList) literal)
          = some ⟨['a'], some ['x'], none⟩
        ∧ ExamplesSpec.ofLiteral? (substituteLine (fun _ => "a\\b".toList) literal)
          = some ⟨"ab".toList, none, none⟩
        ∧ ExamplesSpec.ofLiteral? (substituteLine (fun _ => []) filter) = some ⟨['d'], none, none⟩
        ∧ ExamplesSpec.ofLiteral? before = some ⟨"$\x7benv.X\x7d".toList, none, none⟩
        ∧ ExamplesSpec.ofLiteral? (substituteLine (fun _ => []) before) = none
        ∧ ExamplesSpec.ofLiteral? inside = some ⟨"$\x7benv.X\x7d".toList, none, none⟩
        ∧ substituteLine (fun _ => ['v']) inside = inside
        ∧ (Segment.located 0 (Segment.ofText word)).length = 1
        ∧ Segment.located 0 (Segment.ofText (substitute (fun _ => ['\x7b']) word)) = [] := by
  decide +kernel

end Variables

end FeaturePress
