import FeaturePress.Json.Basic
import FeaturePress.Number.Numeral
import FeaturePress.Time.Date
import FeaturePress.Toml.Lexeme

/-! Values of TOML that are written as one word: truth values, integers, other numbers, dates and
times.
-/

namespace FeaturePress.Toml

/-- Digits without the underscores between them; an underscore must have digits on both sides. -/
def dropUnderscores? (isDigit : Char → Bool) (written : Text) : Option Text :=
  let groups := written.splitOn '_'
  if groups.all fun group => !group.isEmpty && group.all isDigit then some groups.flatten
  else none

/-- Whether decimal digits are written without needless zeros. -/
def isCanonical (digits : Text) : Bool :=
  digits = ['0'] || digits.head? ≠ some '0'

/-- The integers that a document may hold: those that fit 64 bits with or without sign. -/
def integer? (value : Int) : Option Json :=
  if -twoTo 63 ≤ value && value < twoTo 64 then some (.integer value) else none

/-- A decimal integer. -/
def decimal? (negative : Bool) (written : Text) : Option Json := do
  let digits ← dropUnderscores? Char.isDigit written
  if isCanonical digits then
    let value := Text.digitsValue digits
    integer? (if negative then -value else value)
  else none

/-- An integer in a power of two as base. -/
def based? (base : Nat) (written : Text) : Option Json := do
  let isDigit := fun c => (Json.hexDigit? c).any (· < base)
  let digits ← dropUnderscores? isDigit written
  integer? (digits.foldl (fun n c => n * base + (Json.hexDigit? c).getD 0) 0 : Nat)

/-- The exponent of a number; without one it is zero. -/
def exponent? : Text → Option Int
  | [] => some 0
  | c :: rest =>
    if c = 'e' || c = 'E' then
      let (negative, written) := Numeral.cutSign rest
      (dropUnderscores? Char.isDigit written).map fun digits =>
        let n := Text.digitsValue digits
        if negative then -(n : Int) else n
    else none

/-- The fraction of a number, if it has one, and what follows it. -/
def fraction? : Text → Option (Text × Text)
  | '.' :: rest =>
    let isInside := fun c : Char => c.isDigit || c = '_'
    (dropUnderscores? Char.isDigit (rest.takeWhile isInside)).map fun digits =>
      (digits, rest.dropWhile isInside)
  | rest => some ([], rest)

/-- A number with a fraction or an exponent; infinity and what is no number have no value. -/
def float? (negative : Bool) (written : Text) : Option Json :=
  if written = "inf".toList || written = "nan".toList then some .null
  else do
    let isInside := fun c : Char => c.isDigit || c = '_'
    let whole ← dropUnderscores? Char.isDigit (written.takeWhile isInside)
    let behind := written.dropWhile isInside
    let (fraction, rest) ← fraction? behind
    let exponent ← exponent? rest
    let value := Numeral.toBinary64 ⟨negative, whole, fraction, exponent⟩
    if !behind.isEmpty && isCanonical whole && !value.isInfinite then some (.double value)
    else none

/-- A number. -/
def number? (written : Text) : Option Json :=
  match written with
  | '0' :: 'x' :: rest => based? 16 rest
  | '0' :: 'o' :: rest => based? 8 rest
  | '0' :: 'b' :: rest => based? 2 rest
  | _ =>
    let (negative, body) := Numeral.cutSign written
    decimal? negative body <|> float? negative body

-----------------------------------------------------------------------------------------
-- Dates and times
-----------------------------------------------------------------------------------------

/-- A number of just so many digits. -/
def fixed? (count : Nat) (input : Text) : Option (Nat × Text) :=
  (Text.toNat? (input.take count)).bind fun n =>
    if count ≤ input.length then some (n, input.drop count) else none

/-- A date of the calendar. -/
def date? (input : Text) : Option Text := do
  let (year, rest) ← fixed? 4 input
  let (month, rest) ← fixed? 2 (← Text.after? ['-'] rest)
  let (day, rest) ← fixed? 2 (← Text.after? ['-'] rest)
  if Date.isValid ⟨year, month, day⟩ then some rest else none

/-- Hours and minutes within their limits. -/
def clock? (input : Text) : Option Text := do
  let (hour, rest) ← fixed? 2 input
  let (minute, rest) ← fixed? 2 (← Text.after? [':'] rest)
  if hour < 24 && minute < 60 then some rest else none

/-- The decimals of a second, if there are any. -/
def decimals? : Text → Option Text
  | '.' :: rest =>
    if (rest.takeWhile Char.isDigit).isEmpty then none else some (rest.dropWhile Char.isDigit)
  | rest => some rest

/-- A time of day, in which seconds may be left out. -/
def time? (input : Text) : Option Text := do
  let rest ← clock? input
  match rest with
  | ':' :: rest =>
    let (second, rest) ← fixed? 2 rest
    if second ≤ 60 then decimals? rest else none
  | rest => some rest

/-- An offset from universal time, which may be missing. -/
def offset? : Text → Option Text
  | [] => some []
  | c :: rest =>
    if c = 'Z' || c = 'z' then some rest
    else if c = '+' || c = '-' then clock? rest
    else none

/-- Whether a word is a date, a time of day, or both with or without an offset. -/
def isTime (written : Text) : Bool :=
  match date? written with
  | none => (time? written).any List.isEmpty
  | some [] => true
  | some (c :: rest) =>
    (c = 'T' || c = 't' || c = ' ') && ((time? rest).bind offset?).any List.isEmpty

/-- The value of a date or time: an object with one member of a reserved name. -/
def ofTime (written : Text) : Json :=
  .object [("$time".toList, .text written)]

-----------------------------------------------------------------------------------------
-- Words
-----------------------------------------------------------------------------------------

/-- Whether a character may stand in a word. -/
def isWordChar (c : Char) : Bool :=
  c.isAlphanum || c = '+' || c = '-' || c = '_' || c = '.' || c = ':'

/-- The word at the head of an input. A single space may stand between a date and a time. -/
def cutWord (input : Text) : Text × Text :=
  let word := input.takeWhile isWordChar
  let rest := input.dropWhile isWordChar
  match rest with
  | ' ' :: c :: tail =>
    if c.isDigit && date? word = some [] then
      (word ++ ' ' :: (c :: tail).takeWhile isWordChar, (c :: tail).dropWhile isWordChar)
    else (word, rest)
  | _ => (word, rest)

/-- The value of a word. -/
def word? (written : Text) : Option Json :=
  if written = "true".toList then some (.bool true)
  else if written = "false".toList then some (.bool false)
  else if isTime written then some (ofTime written)
  else number? written

end FeaturePress.Toml
