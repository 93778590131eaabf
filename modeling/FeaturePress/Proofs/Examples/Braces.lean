import FeaturePress.Examples.Block
import FeaturePress.Examples.Literal
import FeaturePress.Proofs.Text.Lines

/-! Reading a literal brace by brace. Lines are read one by one, yet what is found is what reading the
whole text finds: the brace that matches the first one, if quotes are closed before it.
-/

namespace FeaturePress

-----------------------------------------------------------------------------------------
-- Reading over line feeds
-----------------------------------------------------------------------------------------

namespace BraceState

/-- The state after a character of a text of several lines; a line feed is no character of any line. -/
def next (state : BraceState) (c : Char) : BraceState :=
  if c = '\n' then state else state.after c

/-- The state after a text of several lines that does not close the literal, or the characters up to the
one that does.
-/
def readOn (state : BraceState) : Text → BraceState ⊕ Text
  | [] => .inl state
  | c :: rest =>
    if state.closes c then .inr [c]
    else (readOn (state.next c) rest).map id (c :: ·)

variable {state later : BraceState} {c : Char} {text literal rest : Text}

theorem readOn_cons_eq_inl_iff
    : readOn state (c :: rest) = .inl later
      ↔ state.closes c = false ∧ readOn (state.next c) rest = .inl later := by
  rw [readOn]
  cases state.closes c with
  | true => simp
  | false => cases readOn (state.next c) rest <;> simp

theorem readOn_append_of_inl (passes : readOn state text = .inl later) (rest : Text)
    : readOn state (text ++ rest) = (readOn later rest).map id (text ++ ·) := by
  induction text generalizing state with
  | nil =>
      cases passes
      exact (congrFun Sum.map_id_id _).symm
  | cons c text ih =>
      obtain ⟨open', passes⟩ := readOn_cons_eq_inl_iff.mp passes
      rw [List.cons_append, readOn, open', if_neg Bool.false_ne_true, ih passes]
      exact Sum.map_map ..

theorem readOn_append_of_inr (closed : readOn state text = .inr literal) (rest : Text)
    : readOn state (text ++ rest) = .inr literal := by
  induction text generalizing state literal with
  | nil => cases closed
  | cons c text ih =>
      rw [readOn] at closed
      rw [List.cons_append, readOn]
      split at closed
      · next closes => rw [if_pos closes]; exact closed
      · next open' =>
          rw [if_neg open']
          cases found : readOn (state.next c) text with
          | inl later => rw [found] at closed; cases closed
          | inr more =>
              rw [found] at closed
              rw [ih found]
              exact closed

/-- The literal ends with the brace that closes it, and is read up to there without being closed. -/
theorem exists_init_of_readOn (closed : readOn state text = .inr literal)
    : ∃ init last more, literal = init ++ ['\x7d'] ∧ text = literal ++ more
      ∧ readOn state init = .inl last ∧ last.closes '\x7d' = true := by
  induction text generalizing state literal with
  | nil => cases closed
  | cons c text ih =>
      rw [readOn] at closed
      split at closed
      · next closes =>
          cases closed
          obtain rfl : c = '\x7d' := by
            simp only [BraceState.closes, Bool.and_eq_true, decide_eq_true_eq] at closes
            exact closes.1.2
          exact ⟨[], state, text, rfl, rfl, rfl, closes⟩
      · next open' =>
          cases found : readOn (state.next c) text with
          | inl later => rw [found] at closed; cases closed
          | inr body =>
              rw [found] at closed
              cases closed
              obtain ⟨init, last, more, rfl, rfl, passes, closes⟩ := ih found
              exact ⟨c :: init, last, more, rfl, by simp,
                readOn_cons_eq_inl_iff.mpr ⟨Bool.eq_false_iff.mpr open', passes⟩, closes⟩

/-- What closes a literal is read alike without what is behind it. -/
theorem readOn_literal (closed : readOn state text = .inr literal)
    : readOn state literal = .inr literal ∧ ∃ more, text = literal ++ more := by
  obtain ⟨init, last, more, rfl, shape, passes, closes⟩ := exists_init_of_readOn closed
  refine ⟨?_, more, shape⟩
  rw [readOn_append_of_inl passes, readOn, if_pos closes]
  rfl

/-- On a line without line feeds there is nothing to pass over. -/
theorem read_eq_readOn (unbroken : '\n' ∉ text) : state.read text = state.readOn text := by
  induction text generalizing state with
  | nil => rfl
  | cons c text ih =>
      obtain ⟨plain, unbroken⟩ := not_or.mp (List.mem_cons.not.mp unbroken)
      rw [read, readOn, next, if_neg (Ne.symm plain), ih unbroken]

theorem count_of_readOn (unbroken : '\n' ∉ text) (closed : readOn state text = .inr literal)
    : literal.count '\n' = 0 := by
  obtain ⟨_, _, more, -, rfl, -⟩ := exists_init_of_readOn closed
  exact List.count_eq_zero.mpr fun member => unbroken (List.mem_append_left more member)

end BraceState

/-- What reading line by line finds is what reading the joined lines finds, by induction on the lines. -/
theorem Block.close?_eq (state : BraceState) {line : Text} {rest : List Text}
    (unbroken : ∀ piece ∈ line :: rest, '\n' ∉ piece)
    : close? state line rest
      = (state.readOn (Text.joinLines (line :: rest))).elim (fun _ => none)
          fun literal => some (literal, literal.count '\n') := by
  induction rest generalizing state line with
  | nil =>
      have plain := unbroken line (List.mem_cons_self ..)
      rw [close?, BraceState.read_eq_readOn plain, Text.joinLines, List.intercalate_singleton]
      cases found : state.readOn line with
      | inl _ => rfl
      | inr head => simp only [Sum.elim_inr, BraceState.count_of_readOn plain found]
  | cons following rest ih =>
      have plain := unbroken line (List.mem_cons_self ..)
      rw [close?, BraceState.read_eq_readOn plain, Text.joinLines_cons_cons]
      cases found : state.readOn line with
      | inr head =>
          simp only [BraceState.readOn_append_of_inr found, Sum.elim_inr,
            BraceState.count_of_readOn plain found]
      | inl passed =>
          have later := ih passed fun piece member => unbroken piece (List.mem_cons_of_mem line member)
          have feed : passed.readOn ('\n' :: Text.joinLines (following :: rest))
              = (passed.readOn (Text.joinLines (following :: rest))).map id ('\n' :: ·) := by
            rw [BraceState.readOn]
            simp [BraceState.closes, BraceState.next]
          rw [BraceState.readOn_append_of_inl found, feed]
          simp only [later]
          cases passed.readOn (Text.joinLines (following :: rest)) with
          | inl _ => rfl
          | inr body => simp [List.count_eq_zero.mpr plain]

theorem Block.close?_eq_none_iff {state : BraceState} {line : Text} {rest : List Text}
    (unbroken : ∀ piece ∈ line :: rest, '\n' ∉ piece)
    : close? state line rest = none
      ↔ ∃ later, state.readOn (Text.joinLines (line :: rest)) = .inl later := by
  rw [close?_eq state unbroken]
  cases state.readOn (Text.joinLines (line :: rest)) <;> simp

-----------------------------------------------------------------------------------------
-- Matched braces
-----------------------------------------------------------------------------------------

/-- No backslash stands right before a line feed. -/
def FeedsUnescaped (text : Text) : Prop :=
  ¬ ['\\', '\n'] <:+: text

instance {text : Text} : Decidable (FeedsUnescaped text) :=
  inferInstanceAs (Decidable (¬ _))

namespace FeedsUnescaped

variable {c : Char} {text rest : Text}

theorem tail (unescaped : FeedsUnescaped (c :: text)) : FeedsUnescaped text := fun within =>
  unescaped (within.trans (List.suffix_cons c text).isInfix)

theorem left (unescaped : FeedsUnescaped (text ++ rest)) : FeedsUnescaped text := fun within =>
  unescaped (within.trans (List.prefix_append text rest).isInfix)

theorem right (unescaped : FeedsUnescaped (text ++ rest)) : FeedsUnescaped rest := fun within =>
  unescaped (within.trans (List.suffix_append text rest).isInfix)

theorem head?_ne (unescaped : FeedsUnescaped ('\\' :: text)) : text.head? ≠ some '\n' := by
  cases text with
  | nil => simp
  | cons c text =>
      rintro ⟨⟩
      exact unescaped ⟨[], text, rfl⟩

end FeedsUnescaped

/-- A text that may stand between quotation marks: each backslash stands before a character that it is
written for, which is no line feed.
-/
inductive Between (mark : Char) : Text → Prop
  | nil : Between mark []
  | plain {c rest} (other : c ≠ mark) (noEscape : c ≠ '\\') (between : Between mark rest)
    : Between mark (c :: rest)
  | escaped {c rest} (noFeed : c ≠ '\n') (between : Between mark rest)
    : Between mark ('\\' :: c :: rest)

/-- Whether a character is no quotation mark and no brace. -/
def isPlain (c : Char) : Bool :=
  !Literal.isQuote c && c ≠ '\x7b' && c ≠ '\x7d'

theorem isPlain_of_isBlank {c : Char} (blank : Text.isBlank c = true) : isPlain c = true := by
  have other (d : Char) (solid : Text.isBlank d = false) : c ≠ d := by
    rintro rfl
    cases blank.symm.trans solid
  simp [isPlain, Literal.isQuote, other '\x27' rfl, other '\x22' rfl, other '\x7b' rfl,
    other '\x7d' rfl]

theorem isQuote_of_isPlain {c : Char} (plain : isPlain c = true) : Literal.isQuote c = false := by
  simp only [isPlain, Bool.and_eq_true, Bool.not_eq_true'] at plain
  exact plain.1.1

/-- The quotes of a text are closed, and its braces outside them match, but for closing braces to some
number that are opened before the text.
-/
inductive Matched : Nat → Text → Prop
  | nil : Matched 0 []
  | plain {opened c rest} (plain : isPlain c = true) (matched : Matched opened rest)
    : Matched opened (c :: rest)
  | quoted {opened mark inner rest} (isQuote : Literal.isQuote mark = true)
    (between : Between mark inner) (matched : Matched opened rest)
    : Matched opened (mark :: (inner ++ mark :: rest))
  | opening {opened rest} (matched : Matched (opened + 1) rest) : Matched opened ('\x7b' :: rest)
  | closing {opened rest} (matched : Matched opened rest) : Matched (opened + 1) ('\x7d' :: rest)

namespace Matched

variable {text rest : Text} {opened : Nat}

theorem append {outer : Nat} (first : Matched opened text) (second : Matched outer rest)
    : Matched (outer + opened) (text ++ rest) := by
  induction first with
  | nil => exact second
  | plain plain _ ih => exact .plain plain ih
  | quoted isQuote between _ ih =>
      rw [List.cons_append, List.append_assoc]
      exact .quoted isQuote between ih
  | opening _ ih => exact .opening ih
  | closing _ ih => exact .closing ih

theorem of_plain (plain : ∀ c ∈ text, isPlain c = true) : Matched 0 text := by
  induction text with
  | nil => exact .nil
  | cons c text ih =>
      obtain ⟨first, others⟩ := List.forall_mem_cons.mp plain
      exact .plain first (ih others)

end Matched

namespace BraceState

variable {later : BraceState} {c mark : Char} {text rest : Text} {depth : Nat}

theorem next_plain (plain : isPlain c = true)
    : next ⟨depth, none, false⟩ c = ⟨depth, none, false⟩ := by
  simp only [isPlain, Literal.isQuote, Bool.and_eq_true, Bool.not_eq_true', decide_eq_true_eq] at plain
  simp [next, BraceState.after, afterPlain, plain]

theorem next_quote (isQuote : Literal.isQuote c = true)
    : next ⟨depth, none, false⟩ c = ⟨depth, some c, false⟩ := by
  have unfed : c ≠ '\n' := by rintro rfl; cases isQuote
  simp only [Literal.isQuote] at isQuote
  simp [next, BraceState.after, afterPlain, isQuote, unfed]

theorem next_between (other : c ≠ mark) (noEscape : c ≠ '\\')
    : next ⟨depth, some mark, false⟩ c = ⟨depth, some mark, false⟩ := by
  simp [next, BraceState.after, afterQuoted, other, noEscape]

theorem next_mark (isQuote : Literal.isQuote mark = true)
    : next ⟨depth, some mark, false⟩ mark = ⟨depth, none, false⟩ := by
  have unfed : mark ≠ '\n' := by rintro rfl; cases isQuote
  have noEscape : mark ≠ '\\' := by rintro rfl; cases isQuote
  simp [next, BraceState.after, afterQuoted, unfed, noEscape]

theorem next_escaped (unfed : c ≠ '\n')
    : next ⟨depth, some mark, true⟩ c = ⟨depth, some mark, false⟩ := by
  simp [next, BraceState.after, afterQuoted, unfed]

theorem readOn_between (between : Between mark text)
    : readOn ⟨depth, some mark, false⟩ text = .inl ⟨depth, some mark, false⟩ := by
  induction between with
  | nil => rfl
  | plain other noEscape _ ih =>
      refine readOn_cons_eq_inl_iff.mpr ⟨rfl, ?_⟩
      rw [next_between other noEscape]
      exact ih
  | @escaped c rest unfed _ ih =>
      have escape : next ⟨depth, some mark, false⟩ '\\' = ⟨depth, some mark, true⟩ := rfl
      refine readOn_cons_eq_inl_iff.mpr ⟨rfl, readOn_cons_eq_inl_iff.mpr ⟨rfl, ?_⟩⟩
      rw [escape, next_escaped unfed]
      exact ih

/-- Reading a matched text leaves no quotes open and closes as many braces, below those that stay open. -/
theorem readOn_matched {opened : Nat} (matched : Matched opened text)
    : readOn ⟨depth + 1 + opened, none, false⟩ text = .inl ⟨depth + 1, none, false⟩ := by
  induction matched with
  | nil => rfl
  | @plain opened c rest plain _ ih =>
      have notBrace : c ≠ '\x7d' := by rintro rfl; cases plain
      refine readOn_cons_eq_inl_iff.mpr ⟨by simp [closes, notBrace], ?_⟩
      rw [next_plain plain]
      exact ih
  | @quoted opened mark inner rest isQuote between _ ih =>
      have notBrace : mark ≠ '\x7d' := by rintro rfl; cases isQuote
      have remains
          : readOn ⟨depth + 1 + opened, some mark, false⟩ (mark :: rest) = .inl ⟨depth + 1, none, false⟩ :=
        readOn_cons_eq_inl_iff.mpr ⟨rfl, by rw [next_mark isQuote]; exact ih⟩
      refine readOn_cons_eq_inl_iff.mpr ⟨by simp [closes, notBrace], ?_⟩
      rw [next_quote isQuote, readOn_append_of_inl (readOn_between between), remains]
      rfl
  | opening _ ih => exact readOn_cons_eq_inl_iff.mpr ⟨rfl, ih⟩
  | @closing opened _ _ ih =>
      have deep : ¬ depth + 1 + (opened + 1) ≤ 1 := by omega
      exact readOn_cons_eq_inl_iff.mpr ⟨by simp [closes, deep], ih⟩

/-- Quotes that are closed in the end are closed by their mark, behind a text that may stand between. -/
theorem exists_between_of_readOn (isQuote : Literal.isQuote mark = true) (unescaped : FeedsUnescaped text)
    (ended : later.quote = none) (passes : readOn ⟨depth, some mark, false⟩ text = .inl later)
    : ∃ inner rest, text = inner ++ mark :: rest ∧ Between mark inner
      ∧ readOn ⟨depth, none, false⟩ rest = .inl later := by
  fun_induction Text.readEscaped mark text with
  | case1 =>
      cases passes
      cases ended
  | case2 c rest ih =>
      have noFeed : c ≠ '\n' := fun same => unescaped.head?_ne (by rw [same]; rfl)
      have escape : next ⟨depth, some mark, false⟩ '\\' = ⟨depth, some mark, true⟩ := rfl
      obtain ⟨-, passes⟩ := readOn_cons_eq_inl_iff.mp passes
      obtain ⟨-, passes⟩ := readOn_cons_eq_inl_iff.mp passes
      rw [escape, next_escaped noFeed] at passes
      obtain ⟨inner, behind, rfl, between, passes⟩ := ih unescaped.tail.tail passes
      exact ⟨'\\' :: c :: inner, behind, rfl, .escaped noFeed between, passes⟩
  | case3 rest noEscape =>
      obtain ⟨-, passes⟩ := readOn_cons_eq_inl_iff.mp passes
      rw [next_mark isQuote] at passes
      exact ⟨[], rest, rfl, .nil, passes⟩
  | case4 c rest noEscape other ih =>
      obtain ⟨-, passes⟩ := readOn_cons_eq_inl_iff.mp passes
      by_cases backslash : c = '\\'
      · -- A backslash is the last character then, and quotes stay open behind it.
        subst backslash
        cases rest with
        | nil =>
            cases passes
            cases ended
        | cons d rest => exact absurd rfl (noEscape d rest rfl)
      · rw [next_between other backslash] at passes
        obtain ⟨inner, behind, rfl, between, passes⟩ := ih unescaped.tail passes
        exact ⟨c :: inner, behind, rfl, .plain other backslash between, passes⟩

/-- What is read up to where a brace would close the literal is matched, by induction on its length: a
quoted text is taken as a whole.
-/
theorem matched_of_readOn (closing : later.closes '\x7d' = true) (unescaped : FeedsUnescaped text)
    (passes : readOn ⟨depth + 1, none, false⟩ text = .inl later)
    : Matched depth text := by
  have ended : later.quote = none := by
    simp only [closes, Bool.and_eq_true] at closing
    exact Option.isNone_iff_eq_none.mp closing.1.1
  induction length : text.length using Nat.strongRecOn generalizing text depth with
  | ind n ih =>
      cases text with
      | nil =>
          cases passes
          obtain rfl : depth = 0 := by simpa [closes] using closing
          exact .nil
      | cons c text =>
          subst length
          obtain ⟨passing, passes⟩ := readOn_cons_eq_inl_iff.mp passes
          by_cases quote : Literal.isQuote c = true
          · rw [next_quote quote] at passes
            obtain ⟨inner, rest, rfl, between, passes⟩ :=
              exists_between_of_readOn quote unescaped.tail ended passes
            exact .quoted quote between (ih _ (by simp; omega) unescaped.tail.right.tail passes rfl)
          by_cases brace : c = '\x7b'
          · subst brace
            exact .opening (ih _ (by simp) unescaped.tail passes rfl)
          by_cases brace' : c = '\x7d'
          · subst brace'
            obtain ⟨outer, rfl⟩ : ∃ outer, depth = outer + 1 :=
              Nat.exists_eq_succ_of_ne_zero (by rintro rfl; cases passing)
            exact .closing (ih _ (by simp) unescaped.tail passes rfl)
          · have plain : isPlain c = true := by simp [isPlain, quote, brace, brace']
            rw [next_plain plain] at passes
            exact .plain plain (ih _ (by simp) unescaped.tail passes rfl)

end BraceState

end FeaturePress
