import FeaturePress.SortedMap
import FeaturePress.Text.Blank
import FeaturePress.Text.Escaped

/-! Object literals of data-driven examples, and what they ask for. A literal holds keys and values
that are quoted texts or bare words; keys are told apart without regard to ASCII capitals, and
the last value of a key counts.
-/

namespace FeaturePress

/-- What a data-driven block asks for: a data file, the rows to keep, the name of a sheet. -/
structure ExamplesSpec where
  dataFile : Text
  filter : Option Text
  sheetName : Option Text
deriving DecidableEq

namespace Literal

/-- Whether the character begins and ends quoted texts. -/
def isQuote (c : Char) : Bool :=
  c = '\x27' || c = '\x22'

/-- The quoted text at the head of an input, or the word up to the first terminator. A word is
not empty and has no blanks around it.
-/
def readToken (terminators : List Char) : Text → Option (Text × Text)
  | [] => none
  | c :: rest =>
    if isQuote c then Text.readEscaped c rest
    else
      let word := Text.trim ((c :: rest).takeWhile (!terminators.contains ·))
      if word.isEmpty then none
      else some (word, (c :: rest).dropWhile (!terminators.contains ·))

/-- What follows a token is no longer than the input. -/
theorem length_readToken_le {terminators : List Char} {input token tail : Text}
    (h : readToken terminators input = some (token, tail))
    : tail.length ≤ input.length := by
  cases input with
  | nil => simp [readToken] at h
  | cons c rest =>
      simp only [readToken] at h
      split at h
      · have := Text.length_readEscaped_le h
        simp only [List.length_cons]; omega
      · split at h
        · simp at h
        · simp only [Option.some.injEq, Prod.mk.injEq] at h
          exact h.2 ▸ (List.dropWhile_sublist _).length_le

/-- A key and its value at the head of an input, with a colon between them. -/
def readEntry (input : Text) : Option ((Text × Text) × Text) :=
  match readToken [':'] input with
  | none => none
  | some (key, rest) =>
    match Text.trimStart rest with
    | ':' :: rest =>
      (readToken [',', '\x7d'] (Text.trimStart rest)).map fun (value, rest) =>
        ((Text.lowerAscii key, value), rest)
    | _ => none

/-- An entry takes at least its colon. -/
theorem length_readEntry_lt {input tail : Text} {entry : Text × Text}
    (h : readEntry input = some (entry, tail))
    : tail.length < input.length := by
  unfold readEntry at h
  split at h
  · simp at h
  · next key rest hkey =>
      split at h
      · next after hcolon =>
          obtain ⟨⟨value, tail'⟩, hvalue, hpair⟩ := Option.map_eq_some_iff.mp h
          simp only [Prod.mk.injEq] at hpair
          have h1 := length_readToken_le hkey
          have h2 := length_readToken_le hvalue
          have h3 : (Text.trimStart after).length ≤ after.length :=
            (List.dropWhile_sublist _).length_le
          have h4 : (Text.trimStart rest).length ≤ rest.length :=
            (List.dropWhile_sublist _).length_le
          rw [hcolon, List.length_cons] at h4
          rw [← hpair.2]; omega
      · simp at h

/-- The entries up to the closing brace. Entries need no commas between them, and what follows
the brace is not looked at.
-/
def readEntries (input : Text) : Option (List (Text × Text)) :=
  match input with
  | [] => none
  | c :: rest =>
    if Text.isBlank c || c = ',' then readEntries rest
    else if c = '\x7d' then some []
    else
      match _found : readEntry (c :: rest) with
      | none => none
      | some (entry, tail) => (readEntries tail).map (entry :: ·)
termination_by input.length
decreasing_by
  · simp
  · exact length_readEntry_lt _found

/-- The values of the keys of a literal. -/
def entries? (literal : Text) : Option (SortedMap Text Text) :=
  match Text.trim literal with
  | '\x7b' :: rest => (readEntries rest).map SortedMap.ofList
  | _ => none

end Literal

/-- Reads what a literal asks for; without a data file it asks for nothing. A blank filter is as
good as none.
-/
def ExamplesSpec.ofLiteral? (literal : Text) : Option ExamplesSpec := do
  let entries ← Literal.entries? literal
  let dataFile ← entries.find? "datafile".toList
  return {
    dataFile
    filter := (entries.find? "filter".toList).filter (!Text.isBlankText ·)
    sheetName := entries.find? "sheetname".toList }

end FeaturePress
