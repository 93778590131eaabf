import FeaturePress.Examples.Literal
import FeaturePress.Proofs.Text.Blank
import Mathlib.Data.List.Infix
import Mathlib.Data.List.TakeWhile

/-! How a literal is read: its keys and values as they are written, and where reading ends. What stands
behind the closing brace makes no difference to what is read before it.
-/

namespace FeaturePress.Literal

-----------------------------------------------------------------------------------------
-- Keys and values as written
-----------------------------------------------------------------------------------------

/-- A key or a value as it is written, and the text that it stands for. -/
structure Token where
  written : Text
  value : Text

/-- A token is read from the head of a text, up to what remains of it. -/
def IsToken (terminators : List Char) (token : Token) (rest : Text) : Prop :=
  readToken terminators (token.written ++ rest) = some (token.value, rest)

/-- What a text between two marks stands for: a backslash is written before a character that it makes
stand for itself, and no other mark is.
-/
inductive Quoted (mark : Char) : Text → Text → Prop
  | nil : Quoted mark [] []
  | plain {c value written} (other : c ≠ mark) (noEscape : c ≠ '\\')
    (quoted : Quoted mark value written)
    : Quoted mark (c :: value) (c :: written)
  | escaped {c value written} (quoted : Quoted mark value written)
    : Quoted mark (c :: value) ('\\' :: c :: written)

/-- A key and a value are read from the head of a text, with a colon and perhaps blanks between them, up
to what remains of it.
-/
inductive IsEntry (key value : Token) : Text → Text → Prop
  | intro {before after rest d more}
    (blankBefore : ∀ c ∈ before, Text.isBlank c = true)
    (blankAfter : ∀ c ∈ after, Text.isBlank c = true)
    (starts : value.written = d :: more) (solid : Text.isBlank d = false)
    (isKey : IsToken [':'] key (before ++ ':' :: (after ++ (value.written ++ rest))))
    (isValue : IsToken [',', '\x7d'] value rest)
    : IsEntry key value (key.written ++ (before ++ ':' :: (after ++ (value.written ++ rest)))) rest

/-- Reading entries from a text comes across keys and values up to a closing brace, and something remains
behind that.
-/
inductive Reads : Text → List (Token × Token) → Text → Prop
  | close {rest} : Reads ('\x7d' :: rest) [] rest
  | separator {c rest entries tail} (separates : (Text.isBlank c || c = ',') = true)
    (reads : Reads rest entries tail)
    : Reads (c :: rest) entries tail
  | entry {key value c rest left entries tail} (plain : (Text.isBlank c || c = ',') = false)
    (opens : c ≠ '\x7d') (isEntry : IsEntry key value (c :: rest) left)
    (reads : Reads left entries tail)
    : Reads (c :: rest) ((key, value) :: entries) tail

/-- Reading a literal ends with its last character: it is accepted, and nothing is that it begins with.
-/
structure Ends (literal : Text) : Prop where
  accepted : (entries? literal).isSome = true
  first : ∀ shorter, shorter <+: literal → shorter ≠ literal → entries? shorter = none

/-- The texts that a literal begins with are its `inits`, so ending can be checked. -/
theorem ends_iff_inits {literal : Text}
    : Ends literal ↔ (entries? literal).isSome = true
        ∧ ∀ shorter ∈ literal.inits, shorter ≠ literal → entries? shorter = none := by
  simp only [List.mem_inits]
  exact ⟨fun ends => ⟨ends.accepted, ends.first⟩, fun ⟨accepted, first⟩ => ⟨accepted, first⟩⟩

instance {literal : Text} : Decidable (Ends literal) :=
  decidable_of_iff _ ends_iff_inits.symm

variable {terminators : List Char} {input rest value tail : Text}

-----------------------------------------------------------------------------------------
-- Tokens
-----------------------------------------------------------------------------------------

theorem readEscaped_mark {mark : Char} (plain : mark ≠ '\\') (rest : Text)
    : Text.readEscaped mark (mark :: rest) = some ([], rest) := by
  rw [Text.readEscaped.eq_3 mark mark rest fun c other shape => absurd shape plain, if_pos rfl]

theorem readEscaped_cons {mark c : Char} (plain : c ≠ '\\') (other : c ≠ mark) (rest : Text)
    : Text.readEscaped mark (c :: rest)
      = (Text.readEscaped mark rest).map fun (value, tail) => (c :: value, tail) := by
  rw [Text.readEscaped.eq_3 mark c rest fun d more shape => absurd shape plain, if_neg other]

theorem readEscaped_quoted {mark : Char} {written : Text} (plain : mark ≠ '\\')
    (quoted : Quoted mark value written) (rest : Text)
    : Text.readEscaped mark (written ++ mark :: rest) = some (value, rest) := by
  induction quoted with
  | nil => exact readEscaped_mark plain rest
  | plain other noEscape _ ih =>
      rw [List.cons_append, readEscaped_cons noEscape other, ih]
      rfl
  | escaped _ ih =>
      rw [List.cons_append, List.cons_append, Text.readEscaped, ih]
      rfl

theorem exists_quoted_of_readEscaped {mark : Char} (read : Text.readEscaped mark input = some (value, rest))
    : ∃ written, Quoted mark value written ∧ input = written ++ mark :: rest := by
  fun_induction Text.readEscaped mark input generalizing value with
  | case1 => cases read
  | case2 c later ih =>
      obtain ⟨⟨value, _⟩, found, made⟩ := Option.map_eq_some_iff.mp read
      cases made
      obtain ⟨written, quoted, rfl⟩ := ih found
      exact ⟨'\\' :: c :: written, .escaped quoted, rfl⟩
  | case3 later noEscape =>
      cases read
      exact ⟨[], .nil, rfl⟩
  | case4 c later noEscape noMark ih =>
      obtain ⟨⟨value, _⟩, found, made⟩ := Option.map_eq_some_iff.mp read
      cases made
      obtain ⟨written, quoted, rfl⟩ := ih found
      have noBackslash : c ≠ '\\' := by
        rintro rfl
        cases written with
        | nil => exact noEscape mark rest rfl rfl
        | cons d written => exact noEscape d (written ++ mark :: rest) rfl rfl
      exact ⟨c :: written, .plain noMark noBackslash quoted, rfl⟩

/-- A word takes as much of any text that goes on with the same character, or that ends with the word. -/
theorem takeWhile_append_dropWhile_congr {p : Char → Bool} {other : Text}
    (same : other.head? = (input.dropWhile p).head?)
    : (input.takeWhile p ++ other).takeWhile p = input.takeWhile p
      ∧ (input.takeWhile p ++ other).dropWhile p = other := by
  have all : ∀ c ∈ input.takeWhile p, p c = true := fun c member => List.mem_takeWhile_imp member
  have stops : other.takeWhile p = [] ∧ other.dropWhile p = other := by
    cases other with
    | nil => exact ⟨rfl, rfl⟩
    | cons d more =>
        have first := List.head?_dropWhile_not p input
        rw [← same] at first
        simp only [List.head?_cons] at first
        simp [first]
  rw [List.takeWhile_append_of_pos all, List.dropWhile_append_of_pos all, stops.1, stops.2,
    List.append_nil]
  exact ⟨rfl, rfl⟩

/-- A token takes something from the head of a text, and takes the same from any that goes on as long as
the character behind it, if there is one, stays.
-/
theorem exists_written_of_readToken (read : readToken terminators input = some (value, rest))
    : ∃ c lead, input = c :: lead ++ rest
      ∧ ∀ other, other.head? = rest.head?
        → readToken terminators (c :: lead ++ other) = some (value, other) := by
  cases input with
  | nil => cases read
  | cons c later =>
      by_cases quote : isQuote c = true
      · have plain : c ≠ '\\' := by rintro rfl; cases quote
        rw [readToken, if_pos quote] at read
        obtain ⟨written, quoted, rfl⟩ := exists_quoted_of_readEscaped read
        refine ⟨c, written ++ [c], by simp, fun other _ => ?_⟩
        rw [List.cons_append, readToken, if_pos quote]
        simpa using readEscaped_quoted plain quoted other
      · simp only [readToken, if_neg quote] at read
        split at read
        · cases read
        · next nonempty =>
            cases read
            have split := @List.takeWhile_append_dropWhile _ (!terminators.contains ·) (c :: later)
            cases word : (c :: later).takeWhile (!terminators.contains ·) with
            | nil =>
                rw [word] at nonempty
                exact absurd rfl nonempty
            | cons d lead =>
                rw [word] at nonempty split
                obtain ⟨rfl, -⟩ := List.cons.inj split
                refine ⟨d, lead, split.symm, fun other same => ?_⟩
                obtain ⟨taken, left⟩ := takeWhile_append_dropWhile_congr same
                rw [word, List.cons_append] at taken left
                rw [List.cons_append, readToken, if_neg quote]
                simp only [taken, left, if_neg nonempty]

/-- A token stays one before another text, if that begins alike. -/
theorem IsToken.congr {token : Token} {other : Text} (isToken : IsToken terminators token rest)
    (same : other.head? = rest.head?)
    : IsToken terminators token other := by
  obtain ⟨c, lead, shape, always⟩ := exists_written_of_readToken isToken
  rw [IsToken, List.append_cancel_right shape]
  exact always other same

/-- A bare word is what is written up to a terminator, less the blanks around it. -/
theorem IsToken.bare {token : Token} (isToken : IsToken terminators token rest)
    (unquoted : ∀ c ∈ token.written.head?, isQuote c = false)
    : token.value = Text.trim token.written ∧ ∀ c ∈ rest.head?, terminators.contains c = true := by
  obtain ⟨c, lead, shape, -⟩ := exists_written_of_readToken isToken
  have shape : token.written = c :: lead := List.append_cancel_right shape
  rw [IsToken, shape, List.cons_append, readToken, unquoted c (by rw [shape]; rfl),
    if_neg Bool.false_ne_true] at isToken
  simp only at isToken
  split at isToken
  · cases isToken
  · simp only [Option.some.injEq, Prod.mk.injEq] at isToken
    obtain ⟨word, left⟩ := isToken
    have split := @List.takeWhile_append_dropWhile _ (!terminators.contains ·) (c :: (lead ++ rest))
    rw [left] at split
    rw [List.append_cancel_right (split.trans (List.cons_append ..).symm)] at word
    refine ⟨by rw [← word, shape], fun d first => ?_⟩
    have stops := List.head?_dropWhile_not (!terminators.contains ·) (c :: (lead ++ rest))
    rw [left, Option.mem_def.mp first] at stops
    simpa using stops

-----------------------------------------------------------------------------------------
-- Reading entries
-----------------------------------------------------------------------------------------

theorem exists_isEntry_of_readEntry {pair : Text × Text} {left : Text}
    (read : readEntry input = some (pair, left))
    : ∃ key value, IsEntry key value input left := by
  unfold readEntry at read
  split at read
  · cases read
  · next key behind readKey =>
      split at read
      · next later colon =>
          obtain ⟨⟨value, left'⟩, readValue, made⟩ := Option.map_eq_some_iff.mp read
          cases made
          obtain ⟨c, lead, rfl, -⟩ := exists_written_of_readToken readKey
          obtain ⟨d, more, shape, -⟩ := exists_written_of_readToken readValue
          have before := Text.indentation_append_trimStart behind
          have after := Text.indentation_append_trimStart later
          rw [colon] at before
          rw [shape] at after readValue
          have solid : Text.isBlank d = false := Text.isBlank_of_trimStart_eq_cons shape
          have entry : IsEntry ⟨c :: lead, key⟩ ⟨d :: more, value⟩ _ left :=
            .intro (fun _ => Text.isBlank_of_mem_indentation) (fun _ => Text.isBlank_of_mem_indentation)
              rfl solid (by rw [after, before]; exact readKey) readValue
          rw [after, before] at entry
          exact ⟨_, _, entry⟩
      · cases read

theorem exists_reads_of_readEntries {pairs : List (Text × Text)} (read : readEntries input = some pairs)
    : ∃ entries tail, Reads input entries tail := by
  fun_induction readEntries input generalizing pairs with
  | case1 => cases read
  | case2 c rest separates ih =>
      obtain ⟨entries, tail, reads⟩ := ih read
      exact ⟨entries, tail, .separator separates reads⟩
  | case3 => exact ⟨_, _, .close⟩
  | case4 => cases read
  | case5 c rest plain opens pair left found ih =>
      obtain ⟨pairs, readRest, made⟩ := Option.map_eq_some_iff.mp read
      obtain ⟨entries, tail, reads⟩ := ih readRest
      obtain ⟨key, value, entry⟩ := exists_isEntry_of_readEntry found
      exact ⟨_, _, .entry (Bool.eq_false_iff.mpr plain) opens entry reads⟩

theorem IsEntry.readEntry_eq {key value : Token} {left : Text} (isEntry : IsEntry key value input left)
    : readEntry input = some ((Text.lowerAscii key.value, value.value), left) := by
  cases isEntry with
  | @intro before after _ d more blankBefore blankAfter starts solid isKey isValue =>
      have colon : Text.trimStart (before ++ ':' :: (after ++ (value.written ++ left)))
          = ':' :: (after ++ (value.written ++ left)) :=
        Text.trimStart_append_cons blankBefore _ rfl
      have ahead : Text.trimStart (after ++ (value.written ++ left)) = value.written ++ left := by
        rw [starts]
        exact Text.trimStart_append_cons blankAfter _ solid
      have readKey : readToken [':'] _ = _ := isKey
      have readValue : readToken [',', '\x7d'] _ = _ := isValue
      simp only [readEntry, readKey, colon, ahead, readValue]
      rfl

/-- The name of an entry, without regard to capitals, and its value. -/
def entryOf (entry : Token × Token) : Text × Text :=
  (Text.lowerAscii entry.1.value, entry.2.value)

theorem Reads.readEntries_eq {entries : List (Token × Token)} (reads : Reads input entries tail)
    : readEntries input = some (entries.map entryOf) := by
  induction reads with
  | close =>
      unfold readEntries
      rfl
  | separator separates reads ih =>
      unfold readEntries
      rwa [if_pos separates]
  | entry plain opens isEntry reads ih =>
      have found := isEntry.readEntry_eq
      unfold readEntries
      rw [if_neg (Bool.eq_false_iff.mp plain), if_neg opens]
      split
      · next missing => rw [found] at missing; cases missing
      · next other behind again =>
          rw [found] at again
          cases again
          rw [ih]
          rfl

theorem Reads.isSome_readEntries {entries : List (Token × Token)} (reads : Reads input entries tail)
    : (readEntries input).isSome = true := by
  rw [reads.readEntries_eq]
  rfl

/-- What is left behind the closing brace is the same however the entries are told apart. -/
theorem Reads.tail_unique {entries others : List (Token × Token)} {left : Text}
    (reads : Reads input entries tail) (again : Reads input others left)
    : left = tail := by
  induction reads generalizing others with
  | close =>
      cases again with
      | close => rfl
      | separator separates _ => cases separates
      | entry _ opens _ _ => exact absurd rfl opens
  | separator separates _ ih =>
      cases again with
      | close => cases separates
      | separator _ again => exact ih again
      | entry plain _ _ _ => rw [plain] at separates; cases separates
  | entry plain opens isEntry _ ih =>
      cases again with
      | close => exact absurd rfl opens
      | separator separates _ => rw [plain] at separates; cases separates
      | entry _ _ other again =>
          have same := isEntry.readEntry_eq.symm.trans other.readEntry_eq
          simp only [Option.some.injEq, Prod.mk.injEq] at same
          obtain ⟨-, rfl⟩ := same
          exact ih again

/-- An entry takes something from the head of a text, and the same from any that goes on alike. -/
theorem IsEntry.exists_consumed {key value : Token} {left : Text}
    (isEntry : IsEntry key value input left)
    : ∃ c lead, input = c :: lead ++ left
      ∧ ∀ other, other.head? = left.head? → IsEntry key value (c :: lead ++ other) other := by
  cases isEntry with
  | @intro before after _ d more blankBefore blankAfter starts solid isKey isValue =>
      obtain ⟨c, lead, shape, -⟩ := exists_written_of_readToken isKey
      have shape : key.written = c :: lead := List.append_cancel_right shape
      refine ⟨c, lead ++ (before ++ ':' :: (after ++ value.written)), by simp [shape],
        fun other same => ?_⟩
      have isKey : IsToken [':'] key (before ++ ':' :: (after ++ (value.written ++ other))) :=
        isKey.congr (by simp)
      have entry : IsEntry key value _ other :=
        .intro blankBefore blankAfter starts solid isKey (isValue.congr same)
      simpa [shape] using entry

theorem IsEntry.isToken {key value : Token} {left : Text} (isEntry : IsEntry key value input left)
    : IsToken [',', '\x7d'] value left := by
  cases isEntry with
  | intro _ _ _ _ _ isValue => exact isValue

theorem Reads.exists_isToken {entries : List (Token × Token)} {entry : Token × Token}
    (reads : Reads input entries tail) (member : entry ∈ entries)
    : ∃ rest, IsToken [',', '\x7d'] entry.2 rest := by
  induction reads with
  | close => cases member
  | separator _ _ ih => exact ih member
  | entry _ _ isEntry _ ih =>
      rcases List.mem_cons.mp member with rfl | later
      · exact ⟨_, isEntry.isToken⟩
      · exact ih later

/-- What stands behind the closing brace makes no difference, by induction on what is read. -/
theorem Reads.exists_consumed {entries : List (Token × Token)} (reads : Reads input entries tail)
    : ∃ consumed, input = consumed ++ '\x7d' :: tail
      ∧ ∀ other, Reads (consumed ++ '\x7d' :: other) entries other := by
  induction reads with
  | close => exact ⟨[], rfl, fun other => .close⟩
  | @separator c rest entries tail separates reads ih =>
      obtain ⟨consumed, rfl, always⟩ := ih
      exact ⟨c :: consumed, rfl, fun other => .separator separates (always other)⟩
  | @entry key value c rest left entries tail plain opens isEntry reads ih =>
      obtain ⟨consumed, rfl, always⟩ := ih
      obtain ⟨c', lead, shape, entries⟩ := isEntry.exists_consumed
      obtain ⟨rfl, rfl⟩ := List.cons.inj shape
      refine ⟨c :: lead ++ consumed, by simp, fun other => ?_⟩
      have entry := entries (consumed ++ '\x7d' :: other) (by simp)
      simpa using Reads.entry plain opens entry (always other)

-----------------------------------------------------------------------------------------
-- Literals
-----------------------------------------------------------------------------------------

variable {inner : Text}

/-- A text in braces has nothing to trim. -/
theorem entries?_braced (inner : Text)
    : entries? ('\x7b' :: (inner ++ ['\x7d']))
      = (readEntries (inner ++ ['\x7d'])).map SortedMap.ofList := by
  have ends : Text.trimEnd (inner ++ ['\x7d']) = inner ++ ['\x7d'] := by
    simp [Text.trimEnd, show Text.isBlank '\x7d' = false from rfl]
  have trimmed : Text.trim ('\x7b' :: (inner ++ ['\x7d'])) = '\x7b' :: (inner ++ ['\x7d']) := by
    rw [Text.trim_cons _ rfl, ends]
  simp only [entries?, trimmed]

theorem Reads.entries?_eq {body : Text} {entries : List (Token × Token)} (reads : Reads body entries [])
    : entries? ('\x7b' :: body) = some (SortedMap.ofList (entries.map entryOf)) := by
  obtain ⟨inner, rfl, -⟩ := reads.exists_consumed
  rw [entries?_braced, reads.readEntries_eq]
  rfl

/-- Entries are read up to the last brace, as a brace before it would end a shorter literal. -/
theorem Ends.exists_reads (ends : Ends ('\x7b' :: (inner ++ ['\x7d'])))
    : ∃ entries, Reads (inner ++ ['\x7d']) entries [] := by
  have accepted := ends.accepted
  rw [entries?_braced, Option.isSome_map] at accepted
  obtain ⟨pairs, read⟩ := Option.isSome_iff_exists.mp accepted
  obtain ⟨entries, tail, reads⟩ := exists_reads_of_readEntries read
  obtain ⟨consumed, shape, always⟩ := reads.exists_consumed
  have shorter : entries? ('\x7b' :: (consumed ++ ['\x7d'])) ≠ none := by
    rw [entries?_braced, Ne, Option.map_eq_none_iff, ← Ne, Option.ne_none_iff_isSome]
    exact (always []).isSome_readEntries
  have same : '\x7b' :: (consumed ++ ['\x7d']) = '\x7b' :: (inner ++ ['\x7d']) := by
    by_contra differ
    exact shorter (ends.first _ (by simp [shape]) differ)
  exact ⟨entries, by rw [← (List.cons.inj same).2]; exact always []⟩

/-- A literal whose entries are read up to its last brace begins with no other literal, which would be
read the same way.
-/
theorem Reads.ends {entries : List (Token × Token)} (reads : Reads (inner ++ ['\x7d']) entries [])
    : Ends ('\x7b' :: (inner ++ ['\x7d'])) := by
  refine ⟨by rw [entries?_braced, Option.isSome_map]; exact reads.isSome_readEntries,
    fun shorter isPrefix differ => ?_⟩
  by_contra accepted
  cases shorter with
  | nil => exact accepted rfl
  | cons c lead =>
      obtain ⟨rfl, within⟩ := List.cons_prefix_cons.mp isPrefix
      have trimmed : Text.trim ('\x7b' :: lead) = '\x7b' :: Text.trimEnd lead := Text.trim_cons lead rfl
      simp only [entries?, trimmed, Option.map_eq_none_iff] at accepted
      obtain ⟨pairs, read⟩ := Option.ne_none_iff_exists'.mp accepted
      obtain ⟨others, tail, readsLead⟩ := exists_reads_of_readEntries read
      obtain ⟨consumed, shape, always⟩ := readsLead.exists_consumed
      obtain ⟨more, whole⟩ := (Text.isPrefix_trimEnd lead).trans within
      have readsWhole : Reads (inner ++ ['\x7d']) others (tail ++ more) := by
        rw [← whole, shape, List.append_assoc, List.cons_append]
        exact always (tail ++ more)
      obtain ⟨-, rfl⟩ := List.append_eq_nil_iff.mp (reads.tail_unique readsWhole)
      have same : lead = inner ++ ['\x7d'] := by
        refine within.eq_of_length_le ?_
        rw [← whole, List.append_nil]
        exact (Text.isPrefix_trimEnd lead).length_le
      exact differ (by rw [same])

/-- Reading ends with the last brace exactly when nothing is left behind the brace that closes the
entries.
-/
theorem ends_braced_iff
    : Ends ('\x7b' :: (inner ++ ['\x7d'])) ↔ ∃ entries, Reads (inner ++ ['\x7d']) entries [] :=
  ⟨Ends.exists_reads, fun ⟨_, reads⟩ => reads.ends⟩

end FeaturePress.Literal
