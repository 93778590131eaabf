import FeaturePress.Proofs.Examples.Braces
import FeaturePress.Proofs.Examples.Literal
import FeaturePress.Proofs.Examples.Locating

/-! Where the literal of a block ends. Reading the keys and values of a literal ends where its braces
close when each key and value is written with its quotes closed and its braces matched.
-/

namespace FeaturePress

-----------------------------------------------------------------------------------------
-- Keys and values
-----------------------------------------------------------------------------------------

namespace Literal

variable {key value : Token} {input left inner : Text} {entries : List (Token × Token)}

theorem between_of_quoted {mark : Char} {value written : Text} (quoted : Quoted mark value written)
    (unescaped : FeedsUnescaped written)
    : Between mark written := by
  induction quoted with
  | nil => exact .nil
  | plain other noEscape _ ih => exact .plain other noEscape (ih unescaped.tail)
  | escaped _ ih =>
      exact .escaped (fun same => unescaped.head?_ne (by rw [same]; rfl)) (ih unescaped.tail.tail)

/-- A key or a value is written evenly: between quotation marks with no backslash before a line feed, or
with its own quotes closed and its own braces matched.
-/
def Token.Even (token : Token) : Prop :=
  (∃ mark lead, token.written = mark :: lead ∧ isQuote mark = true ∧ FeedsUnescaped lead)
  ∨ Matched 0 token.written

theorem IsToken.matched {terminators : List Char} {token : Token}
    (isToken : IsToken terminators token left) (even : token.Even)
    : Matched 0 token.written := by
  rcases even with ⟨mark, lead, shape, quote, unescaped⟩ | matched
  · rw [IsToken, shape, List.cons_append, readToken, if_pos quote] at isToken
    obtain ⟨written, quoted, same⟩ := exists_quoted_of_readEscaped isToken
    have same : lead ++ left = written ++ [mark] ++ left := by simpa using same
    obtain rfl := List.append_cancel_right same
    have between := between_of_quoted quoted unescaped.left
    rw [shape]
    exact .quoted quote between .nil
  · exact matched

/-- Between a key and its value there are but blanks and a colon. -/
theorem IsEntry.exists_matched (isEntry : IsEntry key value input left) (keyEven : key.Even)
    (valueEven : value.Even)
    : ∃ written, input = written ++ left ∧ Matched 0 written := by
  cases isEntry with
  | @intro before after _ _ _ blankBefore blankAfter _ _ isKey isValue =>
      have between : Matched 0 (before ++ ':' :: after) := .of_plain fun c member => by
        rcases List.mem_append.mp member with member | member
        · exact isPlain_of_isBlank (blankBefore c member)
        · rcases List.mem_cons.mp member with rfl | member
          · rfl
          · exact isPlain_of_isBlank (blankAfter c member)
      exact ⟨key.written ++ (before ++ ':' :: after ++ value.written), by simp,
        (isKey.matched keyEven).append (between.append (isValue.matched valueEven))⟩

/-- What is read is matched if each key and value is written evenly, by induction on what is read. -/
theorem Reads.exists_matched {tail : Text} (reads : Reads input entries tail)
    (even : ∀ entry ∈ entries, entry.1.Even ∧ entry.2.Even)
    : ∃ consumed, input = consumed ++ '\x7d' :: tail ∧ Matched 0 consumed := by
  induction reads with
  | close => exact ⟨[], rfl, .nil⟩
  | @separator c _ _ _ separates _ ih =>
      obtain ⟨consumed, rfl, matched⟩ := ih even
      have plain : isPlain c = true := by
        rcases Bool.or_eq_true_iff.mp separates with blank | comma
        · exact isPlain_of_isBlank blank
        · obtain rfl := of_decide_eq_true comma
          rfl
      exact ⟨c :: consumed, rfl, .plain plain matched⟩
  | entry _ _ isEntry _ ih =>
      obtain ⟨⟨keyEven, valueEven⟩, others⟩ := List.forall_mem_cons.mp even
      obtain ⟨consumed, rfl, matchedRest⟩ := ih others
      obtain ⟨written, shape, matched⟩ := isEntry.exists_matched keyEven valueEven
      exact ⟨written ++ consumed, by rw [shape, List.append_assoc], matched.append matchedRest⟩

end Literal

-----------------------------------------------------------------------------------------
-- The block that a literal makes
-----------------------------------------------------------------------------------------

/-- A literal behind the keyword, and whatever lines follow, make a text whose first block ends with the
literal.
-/
def Block.IsFirst (literal : Text) (following : List Text) : Prop :=
  let opening := Block.keyword ++ ' ' :: literal
  (Segment.located 0 (Segment.ofText (Text.joinLines (opening :: following)))).head?
    = some (0, ⟨Text.splitLines opening, [], literal⟩)

namespace Block

variable {inner : Text}

/-- A literal ends with its last brace exactly when that closes the first one. -/
theorem balanced_braced_iff
    : Balanced ('\x7b' :: (inner ++ ['\x7d']))
      ↔ ∃ last, BraceState.readOn ⟨1, none, false⟩ inner = .inl last ∧ last.closes '\x7d' = true := by
  constructor
  · intro balanced
    obtain ⟨init, last, more, shape, -, passes, closing⟩ := BraceState.exists_init_of_readOn balanced.closed
    obtain rfl : '\x7b' :: inner = init := List.append_cancel_right shape
    exact ⟨last, (BraceState.readOn_cons_eq_inl_iff.mp passes).2, closing⟩
  · rintro ⟨last, passes, closing⟩
    have passesAll : BraceState.start.readOn ('\x7b' :: inner) = .inl last :=
      BraceState.readOn_cons_eq_inl_iff.mpr ⟨rfl, passes⟩
    have closes : last.readOn ['\x7d'] = .inr ['\x7d'] := by rw [BraceState.readOn, if_pos closing]
    have read := BraceState.readOn_append_of_inl passesAll ['\x7d']
    rw [closes] at read
    exact ⟨rfl, read⟩

theorem balanced_of_matched (matched : Matched 0 inner) : Balanced ('\x7b' :: (inner ++ ['\x7d'])) :=
  balanced_braced_iff.mpr ⟨_, BraceState.readOn_matched matched, rfl⟩

/-- The last brace of a literal that is read to it closes the first, if keys and values are written evenly.
-/
theorem balanced_of_reads {body : Text} {entries : List (Literal.Token × Literal.Token)}
    (reads : Literal.Reads body entries []) (even : ∀ entry ∈ entries, entry.1.Even ∧ entry.2.Even)
    : Balanced ('\x7b' :: body) := by
  obtain ⟨inner, rfl, matched⟩ := reads.exists_matched even
  exact balanced_of_matched matched

/-- Only where the brace that opens the literal is closed by its last one is the literal what the block
ends with.
-/
theorem isFirst_iff (inner : Text) (following : List Text)
    : IsFirst ('\x7b' :: (inner ++ ['\x7d'])) following
      ↔ ∃ last, BraceState.readOn ⟨1, none, false⟩ inner = .inl last ∧ last.closes '\x7d' = true := by
  rw [← balanced_braced_iff, IsFirst]
  generalize '\x7b' :: (inner ++ ['\x7d']) = literal
  constructor
  · intro isFirst
    have member := Segment.mem_of_mem_located (List.mem_of_mem_head? isFirst)
    obtain ⟨gap, tail, frame⟩ := exists_frame_of_mem_ofText member
    exact frame.begins.balanced
  · intro balanced
    obtain ⟨tail, joined⟩ := Text.exists_joinLines_cons following
    obtain ⟨later, pieces⟩ := Text.exists_splitLines_joinLines_cons following
    have begins
        : Begins (Text.joinLines ((keyword ++ ' ' :: literal) :: following)) [] [' '] literal tail :=
      ⟨by rw [joined]; simp, List.forall_mem_nil _, List.not_mem_nil, List.forall_mem_singleton.mpr rfl,
        balanced⟩
    obtain ⟨back, found⟩ := begins.exists_ofText
    have size : ([' '] ++ literal).count '\n' + 1
        = (Text.splitLines (keyword ++ ' ' :: literal)).length := by
      rw [Text.length_splitLines]
      simp [List.count_eq_zero.mpr flush_keyword]
    rw [found, pieces, size, List.take_left]
    rfl

/-- Reading the keys and values of a literal and looking for the end of its block agree exactly when the
quotes and braces between the outer braces match, which they do when keys and values are written evenly;
nothing is said of what a backslash before a line feed does between quotes.
-/
theorem isFirst_iff_matched {inner : Text} (ends : Literal.Ends ('\x7b' :: (inner ++ ['\x7d'])))
    (following : List Text)
    : (Matched 0 inner → IsFirst ('\x7b' :: (inner ++ ['\x7d'])) following)
      ∧ (FeedsUnescaped inner → IsFirst ('\x7b' :: (inner ++ ['\x7d'])) following
          → Matched 0 inner)
      ∧ ∃ entries, Literal.Reads (inner ++ ['\x7d']) entries []
        ∧ ((∀ entry ∈ entries, entry.1.Even ∧ entry.2.Even) → Matched 0 inner) := by
  refine ⟨fun matched => ?_, fun unescaped isFirst => ?_, ?_⟩
  · exact (isFirst_iff inner following).mpr ⟨_, BraceState.readOn_matched matched, rfl⟩
  · obtain ⟨last, passes, closing⟩ := (isFirst_iff inner following).mp isFirst
    exact BraceState.matched_of_readOn closing unescaped passes
  · obtain ⟨entries, reads⟩ := Literal.ends_braced_iff.mp ends
    refine ⟨entries, reads, fun even => ?_⟩
    obtain ⟨consumed, shape, matched⟩ := reads.exists_matched even
    obtain rfl : inner = consumed := List.append_cancel_right shape
    exact matched

/-- A literal of two lines with a brace between quotes, before another line. -/
theorem isFirst_iff_matched_lines
    : Literal.Ends ('\x7b' :: ("datafile: a.csv,\nfilter: 'n == \"\x7d\"'".toList ++ ['\x7d']))
      ∧ IsFirst ('\x7b' :: ("datafile: a.csv,\nfilter: 'n == \"\x7d\"'".toList ++ ['\x7d']))
        ["  | n |".toList] := by
  have ends
      : Literal.Ends ('\x7b' :: ("datafile: a.csv,\nfilter: 'n == \"\x7d\"'".toList ++ ['\x7d'])) := by
    decide +kernel
  have matched : Matched 0 "datafile: a.csv,\nfilter: 'n == \"\x7d\"'".toList :=
    have closing : BraceState.closes ⟨1, none, false⟩ '\x7d' = true := rfl
    BraceState.matched_of_readOn closing (by decide +kernel) (by decide +kernel)
  exact ⟨ends, (isFirst_iff_matched ends _).1 matched⟩

/-- A brace in a word is no brace to reading, but one that stays open to the block. -/
theorem brace_in_word_left_open
    : Literal.Ends "\x7bdatafile: a\x7bb.csv\x7d".toList
      ∧ Segment.located 0 (Segment.ofText "Examples: \x7bdatafile: a\x7bb.csv\x7d".toList) = [] := by
  decide +kernel

end Block

end FeaturePress
