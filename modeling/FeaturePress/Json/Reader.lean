import FeaturePress.Json.Basic
import FeaturePress.Number.Numeral

/-! Reading JSON as the standard writes it: no comments, no trailing commas, no byte order mark,
no raw controls in texts. Every well-formed document has a value; what stands for nothing becomes
`unrepresentable`, so that readers which skip a part need not look at it.
-/

namespace FeaturePress.Json

-----------------------------------------------------------------------------------------
-- Numbers
-----------------------------------------------------------------------------------------

/-- Digits gathered behind a number as long as it fits 64 bits; the digits that remain. -/
def gather (value : Nat) : Text → Nat × Text
  | [] => (value, [])
  | c :: digits =>
    let next := value * 10 + (c.toNat - '0'.toNat)
    if next < twoTo 64 then gather next digits else (value, c :: digits)

/-- The power of ten with a nonnegative exponent as a double. -/
def powerOfTen (exponent : Nat) : Binary64 := Binary64.ofNat (tenTo exponent)

/-- A finite double scaled by a power of ten with one rounded product or quotient by at most
10³⁰⁸ at a time; nothing when it leaves the doubles.
-/
def scale (x : Binary64) (exponent : Int) : Option Binary64 :=
  if x.isZero then some x
  else if 308 < exponent then none
  else if 0 ≤ exponent then
    let product := x.mul (powerOfTen exponent.toNat)
    if product.isInfinite then none else some product
  else if -308 ≤ exponent then some (x.div (powerOfTen exponent.natAbs))
  else scale (x.div (powerOfTen 308)) (exponent + 308)
termination_by exponent.natAbs
decreasing_by omega

/-- A number with a fraction or an exponent: as many leading digits as fit 64 bits count, and
the digits after them only by their places.
-/
def double? (n : Numeral) : Option Binary64 :=
  let (head, dropped) := gather 0 n.whole
  let (significand, lost) := gather head n.fraction
  let power := n.exponent + dropped.length - (n.fraction.length - lost.length : Nat)
  (scale (Binary64.ofNat significand) power).map fun x => if n.negative then x.neg else x

/-- The value of a number: an integer when it is written as one, fits 64 bits and is not the
negative zero, otherwise a double.
-/
def ofNumeral (isWhole : Bool) (n : Numeral) : Json :=
  let value := Text.digitsValue n.whole
  if isWhole && !n.negative && value < twoTo 64 then .integer value
  else if isWhole && n.negative && 0 < value && value ≤ twoTo 63 then .integer (-value)
  else
    match double? n with
    | some x => .double x
    | none => .unrepresentable

/-- The exponent part at the head of a text, if there is one. -/
def readExponent (input : Text) : Option (Option Int × Text) :=
  match input with
  | c :: rest =>
    if c = 'e' || c = 'E' then
      let (negative, body) := Numeral.cutSign rest
      (Text.toNat? (body.takeWhile Char.isDigit)).map fun n =>
        (some (if negative then -(n : Int) else n), body.dropWhile Char.isDigit)
    else some (none, input)
  | [] => some (none, [])

/-- The digits before the point: a single zero, or digits that do not begin with one. -/
def readWhole : Text → Option (Text × Text)
  | '0' :: rest => some (['0'], rest)
  | input =>
    let digits := input.takeWhile Char.isDigit
    if digits.isEmpty then none else some (digits, input.dropWhile Char.isDigit)

/-- The point and the digits after it, if there is a point. -/
def readFraction : Text → Option (Option Text × Text)
  | '.' :: rest =>
    let digits := rest.takeWhile Char.isDigit
    if digits.isEmpty then none else some (some digits, rest.dropWhile Char.isDigit)
  | input => some (none, input)

/-- The number at the head of a text. -/
def readNumber (input : Text) : Option (Json × Text) := do
  let (negative, body) :=
    match input with
    | '-' :: rest => (true, rest)
    | _ => (false, input)
  let (whole, rest) ← readWhole body
  let (fraction, rest) ← readFraction rest
  let (exponent, rest) ← readExponent rest
  let numeral : Numeral := ⟨negative, whole, fraction.getD [], exponent.getD 0⟩
  return (ofNumeral (fraction.isNone && exponent.isNone) numeral, rest)

-----------------------------------------------------------------------------------------
-- Texts
-----------------------------------------------------------------------------------------

/-- The value of a hexadecimal digit of either case. -/
def hexDigit? (c : Char) : Option Nat :=
  if c.isDigit then some (c.toNat - '0'.toNat)
  else if 'a' ≤ c && c ≤ 'f' then some (c.toNat - 'a'.toNat + 10)
  else if 'A' ≤ c && c ≤ 'F' then some (c.toNat - 'A'.toNat + 10)
  else none

/-- The code unit written by four hexadecimal digits. -/
def codeUnit? (a b c d : Char) : Option Nat := do
  let a ← hexDigit? a
  let b ← hexDigit? b
  let c ← hexDigit? c
  let d ← hexDigit? d
  return ((a * 16 + b) * 16 + c) * 16 + d

/-- Whether a code unit is the first half of a surrogate pair. -/
def isHighHalf (unit : Nat) : Bool := 0xD800 ≤ unit && unit < 0xDC00

/-- Whether a code unit is the second half of a surrogate pair. -/
def isLowHalf (unit : Nat) : Bool := 0xDC00 ≤ unit && unit < 0xE000

/-- The character of a surrogate pair. -/
def pairedChar (high low : Nat) : Char :=
  Char.ofNat (0x10000 + (high - 0xD800) * 0x400 + (low - 0xDC00))

/-- The character named by the letter after a backslash. -/
def namedEscape? (c : Char) : Option Char :=
  if c = quotation then some quotation
  else if c = '\\' then some '\\'
  else if c = '/' then some '/'
  else if c = 'b' then some '\x08'
  else if c = 'f' then some '\x0c'
  else if c = 'n' then some '\n'
  else if c = 'r' then some '\r'
  else if c = 't' then some '\t'
  else none
where quotation : Char := '\x22'

/-- Puts a character in front of the text that is read after it. -/
def putChar (c : Char) (read : Option Text × Text) : Option Text × Text :=
  (read.1.map (c :: ·), read.2)

/-- Leaves only the rest of what is read: the text stands for nothing. -/
def noText (read : Option Text × Text) : Option Text × Text :=
  (none, read.2)

/-- The second half of a surrogate pair, if an escape at the head of the input names one. -/
def lowHalf? : Text → Option Nat
  | '\\' :: 'u' :: a :: b :: c :: d :: _ => (codeUnit? a b c d).filter isLowHalf
  | _ => none

/-- Reads up to the closing quotation mark. The text is missing when half of a surrogate pair
stands alone in it.
-/
def readText : Text → Option (Option Text × Text)
  | [] => none
  | '\\' :: 'u' :: a :: b :: c :: d :: rest =>
    match codeUnit? a b c d with
    | none => none
    | some unit =>
      if isHighHalf unit then
        match lowHalf? rest with
        | some low => (readText (rest.drop 6)).map (putChar (pairedChar unit low))
        | none => (readText rest).map noText
      else if isLowHalf unit then (readText rest).map noText
      else (readText rest).map (putChar (Char.ofNat unit))
  | '\\' :: c :: rest =>
    match namedEscape? c with
    | none => none
    | some named => (readText rest).map (putChar named)
  | c :: rest =>
    if c = '\x22' then some (some [], rest)
    else if c = '\\' || c.toNat < 0x20 then none
    else (readText rest).map (putChar c)
termination_by input => input.length
decreasing_by all_goals simp <;> omega

-----------------------------------------------------------------------------------------
-- Values
-----------------------------------------------------------------------------------------

/-- Whether a character may stand between the parts of a document. -/
def isSpace (c : Char) : Bool :=
  c = ' ' || c = '\n' || c = '\t' || c = '\r'

/-- A text behind its leading spaces. -/
def skipSpaces (input : Text) : Text :=
  input.dropWhile isSpace

/-- An object whose names all stand for texts. -/
def ofMembers (members : List (Option Text × Json)) : Json :=
  match members.mapM fun (name, value) => name.map (·, value) with
  | some named => .object named
  | none => .unrepresentable

mutual
/-- The value at the head of an input without leading spaces. A level costs two steps and has
two brackets, an item or member after the first costs one step and has a comma; so the length
of a document bounds the steps.
-/
def readValue : Nat → Text → Option (Json × Text)
  | 0, _ => none
  | steps + 1, input =>
    match input with
    | [] => none
    | c :: rest =>
      if c = '\x22' then
        (readText rest).map fun (value, rest) =>
          (match value with
            | some value => .text value
            | none => .unrepresentable, rest)
      else if c = '[' then
        match skipSpaces rest with
        | ']' :: rest => some (.list [], rest)
        | rest => (readItems steps rest).map fun (items, rest) => (.list items, rest)
      else if c = '\x7b' then
        match skipSpaces rest with
        | '\x7d' :: rest => some (.object [], rest)
        | rest => (readMembers steps rest).map fun (members, rest) => (ofMembers members, rest)
      else if c = '-' || c.isDigit then readNumber input
      else
        match Text.after? "null".toList input with
        | some rest => some (.null, rest)
        | none =>
          match Text.after? "true".toList input with
          | some rest => some (.bool true, rest)
          | none => (Text.after? "false".toList input).map (.bool false, ·)

/-- Items up to the closing bracket; at least one. -/
def readItems : Nat → Text → Option (List Json × Text)
  | 0, _ => none
  | steps + 1, input => do
    let (item, rest) ← readValue steps input
    match skipSpaces rest with
    | ']' :: rest => return ([item], rest)
    | ',' :: rest =>
      let (items, rest) ← readItems steps (skipSpaces rest)
      return (item :: items, rest)
    | _ => none

/-- Members up to the closing brace; at least one. -/
def readMembers : Nat → Text → Option (List (Option Text × Json) × Text)
  | 0, _ => none
  | steps + 1, input =>
    match input with
    | '\x22' :: rest => do
      let (name, rest) ← readText rest
      match skipSpaces rest with
      | ':' :: rest =>
        let (value, rest) ← readValue steps (skipSpaces rest)
        match skipSpaces rest with
        | '\x7d' :: rest => return ([(name, value)], rest)
        | ',' :: rest =>
          let (members, rest) ← readMembers steps (skipSpaces rest)
          return ((name, value) :: members, rest)
        | _ => none
      | _ => none
    | _ => none
end

/-- The value of a document: one value with nothing but spaces around it. -/
def read? (document : Text) : Option Json :=
  match readValue (document.length + 1) (skipSpaces document) with
  | some (value, rest) => if (skipSpaces rest).isEmpty then some value else none
  | none => none

end FeaturePress.Json
