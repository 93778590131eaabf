import FeaturePress.Json.Reader

/-! The smallest parts of a TOML document: line ends, comments, blanks between parts, quoted texts
and keys.
-/

namespace FeaturePress.Toml

/-- Whether a character may stand in comments and between quotation marks. -/
def isPlain (c : Char) : Bool :=
  c = '\t' || (0x20 ≤ c.toNat && c.toNat ≠ 0x7F)

/-- What follows a line end at the head of a text. -/
def afterLineEnd? : Text → Option Text
  | '\n' :: rest => some rest
  | '\r' :: '\n' :: rest => some rest
  | _ => none

/-- A text without its leading spaces and tabs. -/
def skipBlanks (input : Text) : Text :=
  input.dropWhile fun c => c = ' ' || c = '\t'

/-- A text without the comment it may begin with. -/
def skipComment (input : Text) : Text :=
  match input with
  | '#' :: rest => rest.dropWhile isPlain
  | _ => input

/-- What follows the end of a line, before which only a comment may stand. -/
def finishLine? (input : Text) : Option Text :=
  let rest := skipComment (skipBlanks input)
  if rest.isEmpty then some [] else afterLineEnd? rest

/-- A text without blanks, comments and line ends at its head. Each costs one step and at least
one character.
-/
def skipLines : (steps : Nat) → Text → Text
  | 0, input => input
  | steps + 1, input =>
    let rest := skipComment (skipBlanks input)
    match afterLineEnd? rest with
    | some tail => skipLines steps tail
    | none => rest

-----------------------------------------------------------------------------------------
-- Quoted texts
-----------------------------------------------------------------------------------------

/-- The character that hexadecimal digits name. -/
def namedByCode? (digits : List Char) : Option Char := do
  let values ← digits.mapM Json.hexDigit?
  let code := values.foldl (fun n d => n * 16 + d) 0
  if h : code.isValidChar then some (Char.ofNatAux code h) else none

/-- The character that a letter after a backslash names. -/
def namedByLetter? (c : Char) : Option Char :=
  if c = '\x22' || c = '\\' then some c
  else if c = 'b' then some '\x08'
  else if c = 't' then some '\t'
  else if c = 'n' then some '\n'
  else if c = 'f' then some '\x0c'
  else if c = 'r' then some '\r'
  else if c = 'e' then some '\x1b'
  else none

/-- Puts a character before the text of a reading. -/
def putChar (c : Char) (read : Text × Text) : Text × Text :=
  (c :: read.1, read.2)

/-- The end of a text over several lines, behind a first mark: two more marks close it, and up to
two marks before those belong to it.
-/
def closeLines? (mark : Char) : Text → Option (Text × Text)
  | b :: c :: rest =>
    if b = mark && c = mark then
      match rest with
      | d :: e :: tail =>
        if d = mark && e = mark then some ([mark, mark], tail)
        else if d = mark then some ([mark], e :: tail)
        else some ([], rest)
      | [d] => if d = mark then some ([mark], []) else some ([], rest)
      | [] => some ([], [])
    else none
  | _ => none

/-- Whether the first character may stand between marks; line ends may in texts over several
lines.
-/
def isPlainAt (overLines : Bool) : Text → Bool
  | '\n' :: _ => overLines
  | '\r' :: '\n' :: _ => overLines
  | c :: _ => isPlain c
  | [] => false

/-- What a backslash at the end of a line leaves out: blanks and line ends. -/
def skipContinuation (input : Text) : Text :=
  input.dropWhile fun c => c = ' ' || c = '\t' || c = '\n' || c = '\r'

/-- Leaving out a continuation makes no text longer. -/
theorem length_skipContinuation_le (input : Text)
    : (skipContinuation input).length ≤ input.length :=
  (List.dropWhile_sublist _).length_le

/-- Reads a text with escapes up to its closing mark. -/
def readBasic (overLines : Bool) : Text → Option (Text × Text)
  | [] => none
  | '\\' :: 'x' :: a :: b :: rest =>
    match namedByCode? [a, b] with
    | some c => (readBasic overLines rest).map (putChar c)
    | none => none
  | '\\' :: 'u' :: a :: b :: c :: d :: rest =>
    match namedByCode? [a, b, c, d] with
    | some c => (readBasic overLines rest).map (putChar c)
    | none => none
  | '\\' :: 'U' :: a :: b :: c :: d :: e :: f :: g :: h :: rest =>
    match namedByCode? [a, b, c, d, e, f, g, h] with
    | some c => (readBasic overLines rest).map (putChar c)
    | none => none
  | '\\' :: c :: rest =>
    match namedByLetter? c with
    | some named => (readBasic overLines rest).map (putChar named)
    | none =>
      if overLines && (afterLineEnd? (skipBlanks (c :: rest))).isSome then
        readBasic overLines (skipContinuation (c :: rest))
      else none
  | c :: rest =>
    if c = '\x22' then
      if !overLines then some ([], rest)
      else
        match closeLines? c rest with
        | some closed => some closed
        | none => (readBasic overLines rest).map (putChar c)
    else if c = '\\' then none
    else if isPlainAt overLines (c :: rest) then (readBasic overLines rest).map (putChar c)
    else none
termination_by input => input.length
decreasing_by
  · simp only [List.length_cons]; omega
  · simp only [List.length_cons]; omega
  · simp only [List.length_cons]; omega
  · simp only [List.length_cons]; omega
  · have := length_skipContinuation_le (c :: rest)
    simp only [List.length_cons] at *; omega
  · simp
  · simp

/-- Reads a text without escapes up to its closing mark. -/
def readLiteral (overLines : Bool) : Text → Option (Text × Text)
  | [] => none
  | c :: rest =>
    if c = '\x27' then
      if !overLines then some ([], rest)
      else
        match closeLines? c rest with
        | some closed => some closed
        | none => (readLiteral overLines rest).map (putChar c)
    else if isPlainAt overLines (c :: rest) then (readLiteral overLines rest).map (putChar c)
    else none

/-- Reads a text that goes over several lines; a line end right behind the opening marks does not
belong to it.
-/
def readLines (read : Text → Option (Text × Text)) (input : Text) : Option (Text × Text) :=
  read ((afterLineEnd? input).getD input)

/-- The quoted text at the head of an input. -/
def readQuoted? (input : Text) : Option (Text × Text) :=
  match input with
  | '\x22' :: '\x22' :: '\x22' :: rest => readLines (readBasic true) rest
  | '\x22' :: rest => readBasic false rest
  | '\x27' :: '\x27' :: '\x27' :: rest => readLines (readLiteral true) rest
  | '\x27' :: rest => readLiteral false rest
  | _ => none

-----------------------------------------------------------------------------------------
-- Keys
-----------------------------------------------------------------------------------------

/-- Whether a character may stand in a key without quotation marks. -/
def isKeyChar (c : Char) : Bool :=
  c.isAlphanum || c = '_' || c = '-'

/-- One part of a key: a word, or a text quoted on one line. -/
def readKeyPart : Text → Option (Text × Text)
  | '\x22' :: rest => readBasic false rest
  | '\x27' :: rest => readLiteral false rest
  | input =>
    let word := input.takeWhile isKeyChar
    if word.isEmpty then none else some (word, input.dropWhile isKeyChar)

/-- The parts of a key with dots between them, at least one; blanks may stand around each. A part
costs one step and at least one character.
-/
def readKey : (steps : Nat) → Text → Option (List Text × Text)
  | 0, _ => none
  | steps + 1, input =>
    match readKeyPart (skipBlanks input) with
    | none => none
    | some (part, rest) =>
      match skipBlanks rest with
      | '.' :: rest => (readKey steps rest).map fun (parts, tail) => (part :: parts, tail)
      | rest => some ([part], rest)

end FeaturePress.Toml
