import FeaturePress.Proofs.Examples.Closing
import FeaturePress.Proofs.SortedMap

/-! Literals whose values are quoted. A value that is written between quotation marks, with a backslash
before each backslash and each such mark, is read back whatever it holds, and the block of the literal ends
where the literal does.
-/

namespace FeaturePress

namespace Literal

-----------------------------------------------------------------------------------------
-- Writing entries
-----------------------------------------------------------------------------------------

/-- An entry as it may be written: a bare key and a quoted value, with blanks around both. -/
structure QuotedEntry where
  key : Text
  value : Text
  mark : Char
  lead : Text
  beforeColon : Text
  afterColon : Text
  trail : Text
  quotes : isQuote mark = true
  blankLead : Text.isBlankText lead = true
  blankBefore : Text.isBlankText beforeColon = true
  blankAfter : Text.isBlankText afterColon = true
  blankTrail : Text.isBlankText trail = true

namespace QuotedEntry

/-- The value of an entry between its quotation marks. -/
def quoted (entry : QuotedEntry) : Text :=
  entry.mark :: (Text.writeEscaped entry.mark entry.value ++ [entry.mark])

/-- An entry as it is written. -/
def written (entry : QuotedEntry) : Text :=
  entry.lead
  ++ (entry.key
    ++ (entry.beforeColon ++ ':' :: (entry.afterColon ++ (entry.quoted ++ entry.trail))))

/-- The name and the value of an entry. -/
def named (entry : QuotedEntry) : Text × Text :=
  (Text.lowerAscii entry.key, entry.value)

/-- Entries with commas between them. -/
def inside (entries : List QuotedEntry) : Text :=
  List.intercalate [','] (entries.map written)

/-- The literal of some entries. -/
def literal (entries : List QuotedEntry) : Text :=
  '\x7b' :: (inside entries ++ ['\x7d'])

/-- The key of an entry as it is read: the blanks before the colon belong to it. -/
def keyToken (entry : QuotedEntry) : Token :=
  ⟨entry.key ++ entry.beforeColon, entry.key⟩

/-- The value of an entry as it is read. -/
def valueToken (entry : QuotedEntry) : Token :=
  ⟨entry.quoted, entry.value⟩

end QuotedEntry

/-- A key may stand bare: it is a word without characters that mean something in a literal. -/
structure IsName (key : Text) : Prop where
  nonempty : key ≠ []
  solid : ∀ c ∈ key, Text.isBlank c = false
  plain : ∀ c ∈ key, isPlain c = true
  bare : ∀ c ∈ key, c ≠ ':' ∧ c ≠ ','

variable {mark : Char} {value key rest tail : Text} {entry : QuotedEntry} {entries : List QuotedEntry}

-----------------------------------------------------------------------------------------
-- Quoted values
-----------------------------------------------------------------------------------------

theorem quoted_writeEscaped (mark : Char) (value : Text)
    : Quoted mark value (Text.writeEscaped mark value) := by
  induction value with
  | nil => exact .nil
  | cons c value ih =>
      rw [Text.writeEscaped, List.flatMap_cons]
      by_cases special : (c = mark || c = '\\') = true
      · rw [if_pos special]
        exact .escaped ih
      · rw [if_neg special]
        simp only [Bool.or_eq_true, decide_eq_true_eq, not_or] at special
        exact .plain special.1 special.2 ih

/-- A backslash is written before no line feed, so the look for the end of a block follows. -/
theorem between_writeEscaped (isQuote : isQuote mark = true) (value : Text)
    : Between mark (Text.writeEscaped mark value) := by
  induction value with
  | nil => exact .nil
  | cons c value ih =>
      rw [Text.writeEscaped, List.flatMap_cons]
      by_cases special : (c = mark || c = '\\') = true
      · rw [if_pos special]
        refine .escaped ?_ ih
        rintro rfl
        simp only [Bool.or_eq_true, decide_eq_true_eq] at special
        rcases special with rfl | backslash
        · cases isQuote
        · cases backslash
      · rw [if_neg special]
        simp only [Bool.or_eq_true, decide_eq_true_eq, not_or] at special
        exact .plain special.1 special.2 ih

theorem QuotedEntry.isToken_value (entry : QuotedEntry) (terminators : List Char) (rest : Text)
    : IsToken terminators entry.valueToken rest := by
  have plain : entry.mark ≠ '\\' := by
    intro backslash
    have quote := entry.quotes
    rw [backslash] at quote
    cases quote
  rw [IsToken, valueToken, quoted, List.cons_append, List.append_assoc, readToken,
    if_pos entry.quotes]
  exact readEscaped_quoted plain (quoted_writeEscaped entry.mark entry.value) rest

theorem QuotedEntry.matched_value (entry : QuotedEntry) : Matched 0 entry.valueToken.written :=
  .quoted entry.quotes (between_writeEscaped entry.quotes entry.value) .nil

-----------------------------------------------------------------------------------------
-- Bare keys
-----------------------------------------------------------------------------------------

theorem IsName.trim_append (isName : IsName key) {blanks : Text} (blank : Text.isBlankText blanks = true)
    : Text.trim (key ++ blanks) = key := by
  have ends : Text.trimEnd (key ++ blanks) = key := by
    have back : key.reverse.dropWhile Text.isBlank = key.reverse := by
      rw [List.dropWhile_eq_self_iff]
      intro size
      simpa using isName.solid _ (List.mem_reverse.mp (List.getElem_mem size))
    rw [Text.trimEnd, List.reverse_append,
      List.dropWhile_append_of_pos fun c member =>
        List.all_eq_true.mp blank c (List.mem_reverse.mp member), back,
      List.reverse_reverse]
  cases shape : key with
  | nil => exact absurd shape isName.nonempty
  | cons c word =>
      have solid := isName.solid c (by simp [shape])
      rw [shape] at ends
      rw [Text.trim, List.cons_append, Text.trimStart_cons _ solid, ← List.cons_append, ends]

theorem QuotedEntry.isToken_key (entry : QuotedEntry) (isName : IsName entry.key) (rest : Text)
    : IsToken [':'] entry.keyToken (':' :: rest) := by
  have inside : ∀ c ∈ entry.key ++ entry.beforeColon, (!List.contains [':'] c) = true := by
    intro c member
    have other : c ≠ ':' := by
      rcases List.mem_append.mp member with word | blanks
      · exact (isName.bare c word).1
      · rintro rfl
        cases List.all_eq_true.mp entry.blankBefore _ blanks
    simpa using other
  have word : (entry.key ++ entry.beforeColon ++ ':' :: rest).takeWhile (!List.contains [':'] ·) = _ :=
    List.takeWhile_append_of_pos inside
  have left : (entry.key ++ entry.beforeColon ++ ':' :: rest).dropWhile (!List.contains [':'] ·) = _ :=
    List.dropWhile_append_of_pos inside
  have trimmed := isName.trim_append entry.blankBefore
  rw [IsToken, keyToken]
  cases shape : entry.key with
  | nil => exact absurd shape isName.nonempty
  | cons c more =>
      have noQuote : isQuote c = false := isQuote_of_isPlain (isName.plain c (by simp [shape]))
      rw [shape] at word left trimmed
      simp only [List.cons_append] at word left trimmed ⊢
      simp only [readToken, noQuote, Bool.false_eq_true, if_false, word, left]
      simp [trimmed]

theorem QuotedEntry.matched_key (entry : QuotedEntry) (isName : IsName entry.key)
    : Matched 0 entry.keyToken.written :=
  .of_plain fun c member => by
    rcases List.mem_append.mp member with word | blanks
    · exact isName.plain c word
    · exact isPlain_of_isBlank (List.all_eq_true.mp entry.blankBefore c blanks)

theorem isAlpha_of_toLower {c : Char} (lower : c.toLower.isLower = true) : c.isAlpha = true := by
  refine Bool.or_eq_true_iff.mpr ?_
  unfold Char.toLower at lower
  split at lower
  · next upper => exact .inl (decide_eq_true upper)
  · exact .inr lower

/-- A word of small letters may be a key in capitals as well: no other character becomes a letter. -/
theorem isName_of_lowerAscii {name : Text} (same : Text.lowerAscii key = name) (nonempty : name ≠ [])
    (letters : name.all Char.isLower = true)
    : IsName key := by
  subst same
  have alpha : ∀ c ∈ key, c.isAlpha = true := fun c member =>
    isAlpha_of_toLower (List.all_eq_true.mp letters _ (List.mem_map_of_mem member))
  have other {c : Char} (member : c ∈ key) (d : Char) (noLetter : d.isAlpha = false) : c ≠ d := by
    rintro rfl
    cases (alpha c member).symm.trans noLetter
  refine ⟨fun empty => nonempty (by rw [empty]; rfl), fun c member => Text.isBlank_of_isAlpha (alpha c member),
    fun c member => ?_, fun c member => ⟨other member ':' rfl, other member ',' rfl⟩⟩
  simp [isPlain, isQuote, other member '\x27' rfl, other member '\x22' rfl, other member '\x7b' rfl,
    other member '\x7d' rfl]

-----------------------------------------------------------------------------------------
-- Reading entries
-----------------------------------------------------------------------------------------

theorem Reads.append_blanks {blanks : Text} {tokens : List (Token × Token)}
    (blank : Text.isBlankText blanks = true) (reads : Reads rest tokens tail)
    : Reads (blanks ++ rest) tokens tail := by
  induction blanks with
  | nil => exact reads
  | cons c blanks ih =>
      obtain ⟨first, others⟩ := Bool.and_eq_true_iff.mp blank
      exact .separator (by rw [first]; rfl) (ih others)

theorem QuotedEntry.reads_written {tokens : List (Token × Token)} (isName : IsName entry.key)
    (reads : Reads rest tokens tail)
    : Reads (entry.written ++ rest) ((entry.keyToken, entry.valueToken) :: tokens) tail := by
  have solid : Text.isBlank entry.mark = false := by
    cases blank : Text.isBlank entry.mark with
    | false => rfl
    | true =>
        have plain := isPlain_of_isBlank blank
        simp [isPlain, entry.quotes] at plain
  have isEntry : IsEntry entry.keyToken entry.valueToken _ (entry.trail ++ rest) :=
    .intro (List.forall_mem_nil _) (List.all_eq_true.mp entry.blankAfter) rfl solid (entry.isToken_key isName _)
      (entry.isToken_value _ _)
  have shape : entry.written ++ rest = entry.lead
      ++ (entry.keyToken.written
        ++ ':' :: (entry.afterColon ++ (entry.valueToken.written ++ (entry.trail ++ rest)))) := by
    simp [written, keyToken, valueToken]
  rw [shape]
  refine Reads.append_blanks entry.blankLead ?_
  cases word : entry.key with
  | nil => exact absurd word isName.nonempty
  | cons c more =>
      have first : c ∈ entry.key := by simp [word]
      have plain : (Text.isBlank c || c = ',') = false := by
        simp [isName.solid c first, (isName.bare c first).2]
      have opens : c ≠ '\x7d' := by
        rintro rfl
        cases isName.plain _ first
      have written : entry.keyToken.written = c :: (more ++ entry.beforeColon) := by
        rw [keyToken, word]
        rfl
      rw [List.nil_append, written] at isEntry
      rw [written]
      exact .entry plain opens isEntry (reads.append_blanks entry.blankTrail)

/-- Entries with commas between them are read one by one. -/
theorem reads_inside (isName : ∀ entry ∈ entries, IsName entry.key) (tail : Text)
    : Reads (QuotedEntry.inside entries ++ '\x7d' :: tail)
        (entries.map fun entry => (entry.keyToken, entry.valueToken)) tail := by
  induction entries with
  | nil => exact .close
  | cons entry entries ih =>
      obtain ⟨here, others⟩ := List.forall_mem_cons.mp isName
      cases entries with
      | nil =>
          rw [QuotedEntry.inside, List.map_singleton, List.intercalate_singleton]
          exact QuotedEntry.reads_written here .close
      | cons next entries =>
          have shape : QuotedEntry.inside (entry :: next :: entries) ++ '\x7d' :: tail
              = entry.written ++ ',' :: (QuotedEntry.inside (next :: entries) ++ '\x7d' :: tail) := by
            simp [QuotedEntry.inside, List.intercalate_cons_cons]
          rw [shape]
          exact QuotedEntry.reads_written here (.separator rfl (ih others))

theorem even_of_isName (isName : ∀ entry ∈ entries, IsName entry.key)
    : ∀ entry ∈ entries.map fun entry => (entry.keyToken, entry.valueToken),
        entry.1.Even ∧ entry.2.Even := by
  intro pair member
  obtain ⟨entry, among, rfl⟩ := List.mem_map.mp member
  exact ⟨.inr (entry.matched_key (isName entry among)), .inr entry.matched_value⟩

/-- The last brace of a literal of quoted values closes the first, whatever the values hold. -/
theorem balanced_literal (isName : ∀ entry ∈ entries, IsName entry.key)
    : Block.Balanced (QuotedEntry.literal entries) :=
  Block.balanced_of_reads (reads_inside isName []) (even_of_isName isName)

-----------------------------------------------------------------------------------------
-- Reading literals back
-----------------------------------------------------------------------------------------

/-- A literal of quoted values that names each key once is read as what it names. -/
theorem find?_literal (isName : ∀ entry ∈ entries, IsName entry.key)
    (once : (entries.map fun entry => entry.named.1).Nodup)
    : ∃ map, entries? (QuotedEntry.literal entries) = some map
      ∧ ∀ entry ∈ entries, map.find? entry.named.1 = some entry.value := by
  have pairs : (entries.map fun entry => (entry.keyToken, entry.valueToken)).map entryOf
      = entries.map QuotedEntry.named := by
    rw [List.map_map]
    rfl
  refine ⟨SortedMap.ofList (entries.map QuotedEntry.named), ?_, fun entry member => ?_⟩
  · rw [QuotedEntry.literal, (reads_inside isName []).entries?_eq, pairs]
  · refine SortedMap.find?_ofList_of_mem ?_ (List.mem_map_of_mem member)
    rwa [List.map_map]

end Literal

namespace ExamplesSpec

open Literal

/-- Values that are written between quotation marks are read back whatever they hold: they are the data
file, the filter and the sheet name that the literal asks for, and the first block of the text is that of
the literal, from the line of the keyword to the one that the literal ends on.
-/
theorem quoted_values_read_back {dataFile filter sheet : Text} {entries : List QuotedEntry}
    {before : List Text} {indent gap : Text} (solid : Text.isBlankText filter = false)
    (named
      : (entries.map QuotedEntry.named).Perm
          [("datafile".toList, dataFile), ("filter".toList, filter), ("sheetname".toList, sheet)])
    (plain
      : ∀ line ∈ before,
          '\n' ∉ line ∧ Text.startsWith (Text.trimStart line) Block.keyword = false)
    (indented : Text.isBlankText indent = true) (flush : '\n' ∉ indent)
    (blank : Text.isBlankText gap = true) (tail : Text)
    : let literal := QuotedEntry.literal entries
      let opening := indent ++ (Block.keyword ++ (gap ++ literal))
      (Segment.located 0 (Segment.ofText (Text.joinLines (before ++ [opening ++ tail])))).head?
          = some (before.length,
              ⟨(Text.splitLines (opening ++ tail)).take (opening.count '\n' + 1), indent, literal⟩)
        ∧ ExamplesSpec.ofLiteral? literal = some ⟨dataFile, some filter, some sheet⟩ := by
  intro literal opening
  have names : ∀ entry ∈ entries,
      entry.named.1 ∈ ["datafile".toList, "filter".toList, "sheetname".toList] := by
    intro entry member
    have among := named.mem_iff.mp (List.mem_map_of_mem member)
    simp only [List.mem_cons, List.not_mem_nil, or_false] at among ⊢
    rcases among with same | same | same <;> simp [same]
  have isName : ∀ entry ∈ entries, IsName entry.key := fun entry member => by
    have words : ∀ name ∈ ["datafile".toList, "filter".toList, "sheetname".toList],
        name ≠ [] ∧ name.all Char.isLower = true := by decide
    obtain ⟨nonempty, letters⟩ := words _ (names entry member)
    exact isName_of_lowerAscii rfl nonempty letters
  constructor
  · have begins : Block.Begins (opening ++ tail) indent gap literal tail :=
      ⟨by simp [opening], List.all_eq_true.mp indented, flush, List.all_eq_true.mp blank,
        balanced_literal isName⟩
    obtain ⟨back, found⟩ := begins.exists_ofText_joinLines plain
    have feeds : opening.count '\n' = (gap ++ literal).count '\n' := by
      have first : indent.count '\n' = 0 := List.count_eq_zero.mpr flush
      have second : Block.keyword.count '\n' = 0 := rfl
      simp only [opening, List.count_append, first, second, Nat.zero_add]
    rw [found, Segment.located_lines_append, feeds, Nat.zero_add]
    rfl
  · have once : (entries.map fun entry => entry.named.1).Nodup := by
      have distinct : ["datafile".toList, "filter".toList, "sheetname".toList].Nodup := by decide
      have := (named.map Prod.fst).nodup_iff.mpr distinct
      rwa [List.map_map] at this
    obtain ⟨map, read, finds⟩ := find?_literal isName once
    have value (name : Text) (value : Text) (member : (name, value) ∈ entries.map QuotedEntry.named)
        : map.find? name = some value := by
      obtain ⟨entry, among, same⟩ := List.mem_map.mp member
      cases same
      exact finds entry among
    have first := value "datafile".toList dataFile (named.mem_iff.mpr (by simp))
    have second := value "filter".toList filter (named.mem_iff.mpr (by simp))
    have third := value "sheetname".toList sheet (named.mem_iff.mpr (by simp))
    simp only [ExamplesSpec.ofLiteral?, literal, read, Option.bind_eq_bind, Option.bind_some, first,
      second, third, Option.filter_some, solid]
    rfl

/-- Values with quotes, a brace, a comma, a backslash and a line feed, under a line of its own. -/
theorem quoted_values_read_back_below
    : let entries : List QuotedEntry :=
        [⟨"Filter".toList, "n == \"\x7d,\"\n".toList, '\x27', [], [], [' '], [], rfl, rfl, rfl, rfl, rfl⟩,
          ⟨"sheetName".toList, "it's".toList, '\x27', [' '], [], [' '], [], rfl, rfl, rfl, rfl, rfl⟩,
          ⟨"DATAFILE".toList, "a\\b.csv".toList, '\x22', ['\n'], [' '], [' '], [' '], rfl, rfl, rfl, rfl,
            rfl⟩]
      let literal := QuotedEntry.literal entries
      let opening := "  ".toList ++ (Block.keyword ++ ("\n\n ".toList ++ literal))
      let text := Text.joinLines (["Feature: F".toList] ++ [opening ++ " # rest".toList])
      literal
          = "\x7bFilter: 'n == \"\x7d,\"\n', sheetName: 'it\\'s',\nDATAFILE : \"a\\\\b.csv\" \x7d".toList
        ∧ (Segment.located 0 (Segment.ofText text)).head?
          = some (1,
              ⟨(Text.splitLines (opening ++ " # rest".toList)).take (opening.count '\n' + 1),
                "  ".toList, literal⟩)
        ∧ ExamplesSpec.ofLiteral? literal
          = some ⟨"a\\b.csv".toList, some "n == \"\x7d,\"\n".toList, some "it's".toList⟩ := by
  intro entries literal opening text
  exact ⟨by decide, quoted_values_read_back (by decide) (by decide) (by decide) rfl (by decide) rfl
    " # rest".toList⟩

end ExamplesSpec

end FeaturePress
