import FeaturePress.Proofs.Examples.Locating
import FeaturePress.Proofs.Examples.Placeholders

/-! Values in place of placeholders. To the look for the end of a literal it makes no difference whether a
placeholder or its value is there, if the placeholder reaches over no quotation mark and opens no brace, and
if the value means nothing in a literal.
-/

namespace FeaturePress

namespace Variables

-----------------------------------------------------------------------------------------
-- Values in place of placeholders
-----------------------------------------------------------------------------------------

/-- A value means nothing in a literal: it has no quotation marks, braces, backslashes and line feeds. -/
def Inert (value : Text) : Prop :=
  ∀ c ∈ value, isPlain c = true ∧ c ≠ '\\' ∧ c ≠ '\n'

instance {value : Text} : Decidable (Inert value) :=
  List.decidableBAll _ value

/-- Whether a backslash takes the next character along, behind a character of a text of several lines: a
backslash does that is not taken along itself.
-/
def takesNext (taken : Bool) (c : Char) : Bool :=
  if c = '\n' then taken else c = '\\' && !taken

/-- Whether a backslash at the end of a text takes the next character along. -/
def endsTaking (taken : Bool) (text : Text) : Bool :=
  text.foldl takesNext taken

/-- Where a backslash takes the first character of a placeholder along, there is a character in the value to
be taken instead.
-/
def Filled (value : Text → Text) (taken : Bool) (text : Text) : Prop :=
  ∀ before key after,
    text = before ++ (placeholder key ++ after)
      → IsKey key
      → value (Text.trim key) = []
      → endsTaking taken before = false

/-- A text with values in place of some of its placeholders. -/
inductive Replaced : Bool → Text → Text → Prop
  | nil {taken} : Replaced taken [] []
  | char {taken c text other} (replaced : Replaced (takesNext taken c) text other)
    : Replaced taken (c :: text) (c :: other)
  | mark {taken key value text other} (plain : ∀ c ∈ key, isPlain c = true) (inert : Inert value)
    (filled : value = [] → taken = false) (replaced : Replaced false text other)
    : Replaced taken (placeholder key ++ text) (value ++ other)

variable {c mark : Char} {taken : Bool} {key text other first second more : Text} {value : Text → Text}
  {state : BraceState} {depth : Nat}

theorem Inert.unbroken {value : Text} (inert : Inert value) : '\n' ∉ value :=
  fun member => (inert _ member).2.2 rfl

theorem endsTaking_append (taken : Bool) (first second : Text)
    : endsTaking taken (first ++ second) = endsTaking (endsTaking taken first) second :=
  List.foldl_append

/-- A placeholder ends with a brace, which takes nothing along. -/
theorem endsTaking_placeholder (taken : Bool) (key : Text)
    : endsTaking taken (placeholder key) = false := by
  rw [placeholder, endsTaking_append, endsTaking_append]
  simp [endsTaking, closing, takesNext]

theorem endsTaking_inert {value : Text} (inert : Inert value) (filled : value = [] → taken = false)
    : endsTaking taken value = false := by
  cases value with
  | nil => exact filled rfl
  | cons c value =>
      obtain ⟨last, shape⟩ : ∃ last, (c :: value).getLast? = some last :=
        Option.isSome_iff_exists.mp (List.getLast?_isSome.mpr (List.cons_ne_nil c value))
      obtain ⟨front, whole⟩ := List.getLast?_eq_some_iff.mp shape
      obtain ⟨-, noEscape, unfed⟩ := inert last (by simp [whole])
      rw [whole, endsTaking_append]
      simp [endsTaking, takesNext, noEscape, unfed]

namespace Replaced

theorem refl (taken : Bool) (text : Text) : Replaced taken text text := by
  induction text generalizing taken with
  | nil => exact .nil
  | cons c text ih => exact .char (ih _)

theorem append (replaced : Replaced taken first other)
    (follows : Replaced (endsTaking taken first) second more)
    : Replaced taken (first ++ second) (other ++ more) := by
  induction replaced with
  | nil => exact follows
  | char _ ih => exact .char (ih follows)
  | @mark taken key value text other plain inert filled _ ih =>
      rw [endsTaking_append, endsTaking_placeholder] at follows
      rw [List.append_assoc, List.append_assoc]
      exact .mark plain inert filled (ih follows)

/-- Nothing comes in place of nothing. -/
theorem eq_nil (replaced : Replaced taken [] other) : other = [] := by
  generalize shape : ([] : Text) = empty at replaced
  cases replaced with
  | nil => rfl
  | char => cases shape
  | mark => simp [placeholder, closing] at shape

end Replaced

/-- A text that no backslash can take along with its first character may be read behind any other. -/
theorem Filled.of_head (filled : Filled value false text)
    (head : ∀ c ∈ text.head?, c ≠ '$' ∧ c ≠ '\\' ∧ c ≠ '\n') (taken : Bool)
    : Filled value taken text := by
  intro before key after shape isKey empty
  cases before with
  | nil =>
      have dollar : text.head? = some '$' := by rw [shape]; rfl
      exact absurd rfl (head _ dollar).1
  | cons c before =>
      obtain ⟨-, noEscape, unfed⟩ := head c (by rw [shape]; rfl)
      rw [← filled _ key after shape isKey empty]
      simp [endsTaking, takesNext, noEscape, unfed]

theorem Filled.left (filled : Filled value taken (first ++ second)) : Filled value taken first :=
  fun before key after shape => filled before key (after ++ second) (by simp [shape])

theorem Filled.right (filled : Filled value taken (first ++ second))
    : Filled value (endsTaking taken first) second := by
  intro before key after shape
  rw [← endsTaking_append]
  exact filled (first ++ before) key after (by rw [shape, List.append_assoc])

theorem plain_of_plain_trim (plain : ∀ c ∈ Text.trim key, isPlain c = true) : ∀ c ∈ key, isPlain c = true :=
  fun c member => by
    rcases Text.mem_trim_or_isBlank member with inside | blank
    · exact plain c inside
    · exact isPlain_of_isBlank blank

/-- A text with its values is one in which placeholders are replaced, by induction on its parts. -/
theorem Divides.replaced {parts : List (Text.Piece Text)} (divides : Divides text parts)
    (inert : ∀ key, Inert (value key)) (plain : ∀ key ∈ Text.marksOf parts, ∀ c ∈ key, isPlain c = true)
    (filled : Filled value taken text)
    : Replaced taken text (Text.writePieces value parts) := by
  induction divides generalizing taken with
  | nil => exact .nil
  | @char c rest parts _ _ ih =>
      exact .char
        (ih plain fun before key after shape => filled (c :: before) key after (by rw [shape]; rfl))
  | @mark key rest parts isKey _ ih =>
      obtain ⟨here, others⟩ := List.forall_mem_cons.mp plain
      refine .mark (plain_of_plain_trim here) (inert _) (filled [] key rest rfl isKey)
        (ih others fun before other after shape isOther => ?_)
      have := filled (placeholder key ++ before) other after (by rw [shape, List.append_assoc]) isOther
      rwa [endsTaking_append, endsTaking_placeholder] at this

theorem replaced_substituteText (inert : ∀ key, Inert (value key))
    (plain : ∀ key ∈ keysOfText text, ∀ c ∈ key, isPlain c = true) (filled : Filled value taken text)
    : Replaced taken text (substituteText value text) := by
  rw [← marksOf_parts] at plain
  rw [← writePieces_parts]
  exact (divides_parts text).replaced inert plain filled

-----------------------------------------------------------------------------------------
-- Reading on
-----------------------------------------------------------------------------------------

/-- Inside of a literal the state says of a quoted text what its backslashes do. -/
structure Tracks (state : BraceState) (taken : Bool) : Prop where
  inside : 1 ≤ state.depth
  quotes : ∀ mark ∈ state.quote, Literal.isQuote mark = true
  escaped : state.escaped = (state.quote.isSome && taken)

/-- Between quotes a text without the mark changes only what its backslashes do. -/
theorem readOn_quoted (without : mark ∉ text)
    : BraceState.readOn ⟨depth, some mark, taken⟩ text
      = .inl ⟨depth, some mark, endsTaking taken text⟩ := by
  induction text generalizing taken with
  | nil => rfl
  | cons c text ih =>
      obtain ⟨other, without⟩ := not_or.mp (List.mem_cons.not.mp without)
      have next : BraceState.next ⟨depth, some mark, taken⟩ c = ⟨depth, some mark, takesNext taken c⟩ := by
        simp only [BraceState.next, BraceState.after, BraceState.afterQuoted, takesNext]
        split
        · rfl
        · cases taken <;> simp [Ne.symm other]
          split <;> simp_all
      exact BraceState.readOn_cons_eq_inl_iff.mpr ⟨rfl, by rw [next]; exact ih without⟩

theorem matched_placeholder (plain : ∀ c ∈ key, isPlain c = true) : Matched 0 (placeholder key) := by
  have inner : Matched (0 + 1) ("env.".toList ++ (key ++ closing)) :=
    (Matched.of_plain (by simp [isPlain, Literal.isQuote])).append
      ((Matched.of_plain plain).append (.closing .nil))
  exact .plain rfl (.opening inner)

theorem Tracks.next (tracks : Tracks state taken) (open' : state.closes c = false)
    : Tracks (state.next c) (takesNext taken c) := by
  obtain ⟨depth, quote, escape⟩ := state
  obtain ⟨inside, quotes, escaped⟩ := tracks
  simp only at inside quotes escaped
  subst escaped
  cases quote with
  | some mark =>
      by_cases feed : c = '\n'
      · rw [BraceState.next, takesNext, if_pos feed, if_pos feed]
        exact ⟨inside, quotes, rfl⟩
      simp only [BraceState.next, takesNext, if_neg feed, BraceState.after, BraceState.afterQuoted,
        Option.isSome_some, Bool.true_and]
      cases taken with
      | true => exact ⟨inside, quotes, by simp⟩
      | false =>
          by_cases backslash : c = '\\'
          · simpa [backslash] using Tracks.mk inside quotes rfl
          by_cases ends : c = mark
          · subst ends
            simpa [backslash] using Tracks.mk inside (by simp) rfl
          · simpa [backslash, ends] using Tracks.mk inside quotes rfl
  | none =>
      rw [Option.isSome_none, Bool.false_and] at open' ⊢
      by_cases quote : Literal.isQuote c = true
      · have noEscape : takesNext taken c = false := by
          have unfed : c ≠ '\n' := by rintro rfl; cases quote
          have plain : c ≠ '\\' := by rintro rfl; cases quote
          simp [takesNext, unfed, plain]
        rw [BraceState.next_quote quote, noEscape]
        exact ⟨inside, fun mark same => by cases same; exact quote, rfl⟩
      by_cases opens : c = '\x7b'
      · subst opens
        exact ⟨Nat.le_add_left 1 depth, quotes, rfl⟩
      by_cases closes : c = '\x7d'
      · subst closes
        have deep : 1 < depth := by simpa [BraceState.closes] using open'
        exact ⟨Nat.le_sub_one_of_lt deep, quotes, rfl⟩
      · have plain : isPlain c = true := by simp [isPlain, quote, opens, closes]
        rw [BraceState.next_plain plain]
        exact ⟨inside, quotes, rfl⟩

/-- A text without quotation marks whose braces match makes the reader forget a backslash, if it ends with
none that takes the next character along.
-/
theorem readOn_quoteless (tracks : Tracks state taken) (quoteless : ∀ c ∈ text, Literal.isQuote c = false)
    (matched : Matched 0 text) (ends : endsTaking taken text = false)
    : state.readOn text = .inl { state with escaped := false } := by
  obtain ⟨depth, quote, escape⟩ := state
  obtain ⟨inside, quotes, escaped⟩ := tracks
  simp only at inside quotes escaped
  subst escaped
  cases quote with
  | some mark =>
      have without : mark ∉ text := fun member => by
        cases (quoteless mark member).symm.trans (quotes mark rfl)
      exact (readOn_quoted without).trans (by rw [Option.isSome_some, Bool.true_and, ends])
  | none =>
      obtain ⟨depth, rfl⟩ := Nat.exists_eq_add_of_le' inside
      exact BraceState.readOn_matched matched

/-- A placeholder and its value are all the same to the reader. -/
theorem readOn_placeholder (tracks : Tracks state taken) (plain : ∀ c ∈ key, isPlain c = true)
    : state.readOn (placeholder key) = .inl { state with escaped := false } := by
  refine readOn_quoteless tracks ?_ (matched_placeholder plain) (endsTaking_placeholder taken key)
  simp only [placeholder, List.forall_mem_append]
  exact ⟨by simp [opening, Literal.isQuote], fun c member => isQuote_of_isPlain (plain c member),
    by simp [closing, Literal.isQuote]⟩

theorem readOn_inert {value : Text} (tracks : Tracks state taken) (inert : Inert value)
    (filled : value = [] → taken = false)
    : state.readOn value = .inl { state with escaped := false } :=
  readOn_quoteless tracks (fun c member => isQuote_of_isPlain (inert c member).1)
    (.of_plain fun c member => (inert c member).1) (endsTaking_inert inert filled)

/-- Readings of two texts end alike: both pass to the same state, or both close a literal, and what is left
of one text is left of the other with values in place of placeholders.
-/
inductive Alike (text other : Text) : BraceState ⊕ Text → BraceState ⊕ Text → Prop
  | passes (later) : Alike text other (.inl later) (.inl later)
  | closes {literal written taken rest more} (shape : text = literal ++ rest)
    (again : other = written ++ more) (replaced : Replaced taken rest more)
    : Alike text other (.inr literal) (.inr written)

theorem Alike.behind {lead ahead : Text} {left right : BraceState ⊕ Text}
    (alike : Alike text other left right)
    : Alike (lead ++ text) (ahead ++ other) (left.map id (lead ++ ·)) (right.map id (ahead ++ ·)) := by
  cases alike with
  | passes later => exact .passes later
  | closes shape again replaced =>
      exact .closes (by rw [shape, List.append_assoc]) (by rw [again, List.append_assoc]) replaced

/-- A text and one with values in it are read alike, by induction on the replacement. -/
theorem Replaced.alike (replaced : Replaced taken text other) (tracks : Tracks state taken)
    : Alike text other (state.readOn text) (state.readOn other) := by
  induction replaced generalizing state with
  | nil => exact .passes state
  | @char taken c text other replaced ih =>
      rw [BraceState.readOn, BraceState.readOn]
      cases closes : state.closes c with
      | true =>
          rw [if_pos rfl, if_pos rfl]
          exact .closes rfl rfl replaced
      | false =>
          rw [if_neg Bool.false_ne_true, if_neg Bool.false_ne_true]
          have behind : Alike ([c] ++ text) ([c] ++ other) _ _ := (ih (tracks.next closes)).behind
          exact behind
  | mark plain inert filled _ ih =>
      rw [BraceState.readOn_append_of_inl (readOn_placeholder tracks plain),
        BraceState.readOn_append_of_inl (readOn_inert tracks inert filled)]
      have forgets : Tracks { state with escaped := false } false :=
        ⟨tracks.inside, tracks.quotes, (Bool.and_false _).symm⟩
      exact (ih forgets).behind

/-- A text that begins with a brace is read alike from there. -/
theorem Replaced.braced {body : Text} (replaced : Replaced taken ('\x7b' :: body) other)
    : ∃ later, other = '\x7b' :: later
      ∧ Alike ('\x7b' :: body) other (BraceState.start.readOn ('\x7b' :: body))
          (BraceState.start.readOn other) := by
  generalize shape : '\x7b' :: body = text at replaced
  cases replaced with
  | nil => cases shape
  | mark => cases shape
  | @char _ _ text other replaced =>
      cases shape
      have open' : BraceState.start.closes '\x7b' = false := rfl
      have tracks : Tracks (BraceState.start.next '\x7b') false := ⟨Nat.le_refl 1, by rintro _ ⟨⟩, rfl⟩
      have behind : Alike (['\x7b'] ++ body) (['\x7b'] ++ other) _ _ := (replaced.alike tracks).behind
      refine ⟨other, rfl, ?_⟩
      rw [BraceState.readOn, BraceState.readOn, open', if_neg Bool.false_ne_true, if_neg Bool.false_ne_true]
      exact behind

theorem Replaced.passes {body : Text} (replaced : Replaced taken ('\x7b' :: body) other)
    (passes : ∃ later, BraceState.start.readOn ('\x7b' :: body) = .inl later)
    : ∃ later, BraceState.start.readOn other = .inl later := by
  obtain ⟨later, read⟩ := passes
  obtain ⟨-, -, alike⟩ := replaced.braced
  rw [read] at alike
  generalize BraceState.start.readOn other = result at alike ⊢
  cases alike with
  | passes => exact ⟨later, rfl⟩

/-- A literal that its last brace closes is closed by it with values in it. -/
theorem balanced_of_replaced (balanced : Block.Balanced text) (replaced : Replaced taken text other)
    : Block.Balanced other := by
  obtain ⟨body, rfl⟩ := balanced.exists_body
  obtain ⟨later, shape, alike⟩ := replaced.braced
  refine ⟨by rw [shape]; rfl, ?_⟩
  rw [balanced.closed] at alike
  generalize read : BraceState.start.readOn other = result at alike
  cases alike with
  | @closes _ written taken rest more shape again left =>
      obtain rfl := List.append_right_eq_self.mp shape.symm
      rw [left.eq_nil, List.append_nil] at again
      rw [again]

end Variables

end FeaturePress
