import FeaturePress.Text.Blank
import FeaturePress.Text.Lines

/-! Examples blocks with an object literal. The literal opens on the line of the keyword or on the
next line that is not blank, and goes on until its braces balance; braces between quotes do not
count.
-/

namespace FeaturePress

/-- How far the characters of a literal are read: open braces, the mark of an open quoted text,
and whether a backslash stands right before.
-/
structure BraceState where
  depth : Nat
  quote : Option Char
  escaped : Bool
deriving DecidableEq

namespace BraceState

/-- The state before a literal. -/
def start : BraceState := ⟨0, none, false⟩

/-- The state after a character between quotes. -/
def afterQuoted (state : BraceState) (mark c : Char) : BraceState :=
  if state.escaped then { state with escaped := false }
  else if c = '\\' then { state with escaped := true }
  else if c = mark then { state with quote := none }
  else state

/-- The state after a character outside quotes. -/
def afterPlain (state : BraceState) (c : Char) : BraceState :=
  if c = '\x27' || c = '\x22' then { state with quote := some c }
  else if c = '\x7b' then { state with depth := state.depth + 1 }
  else if c = '\x7d' then { state with depth := state.depth - 1 }
  else state

/-- The state after a character. -/
def after (state : BraceState) (c : Char) : BraceState :=
  match state.quote with
  | some mark => state.afterQuoted mark c
  | none => state.afterPlain c

/-- Whether a character is the brace that closes the literal. -/
def closes (state : BraceState) (c : Char) : Bool :=
  state.quote.isNone && c = '\x7d' && state.depth ≤ 1

/-- The state after some characters that do not close the literal, or the characters up to the one
that does.
-/
def read (state : BraceState) : Text → BraceState ⊕ Text
  | [] => .inl state
  | c :: rest =>
    if state.closes c then .inr [c]
    else (read (state.after c) rest).map id (c :: ·)

end BraceState

/-- An examples block: its lines, the blanks before the keyword, and its literal. -/
structure Block where
  lines : List Text
  indent : Text
  literal : Text
deriving DecidableEq

/-- A line outside every block, or a block. -/
inductive Segment where
  | line (text : Text)
  | block (block : Block)
deriving DecidableEq

namespace Block

/-- The keyword before a block. -/
def keyword : Text := "Examples:".toList

/-- The part of a literal from one line on, and how many more lines it takes. -/
def close? (state : BraceState) (line : Text) : List Text → Option (Text × Nat)
  | [] =>
    match state.read line with
    | .inr head => some (head, 0)
    | .inl _ => none
  | next :: rest =>
    match state.read line with
    | .inr head => some (head, 0)
    | .inl later =>
      (close? later next rest).map fun (literal, count) =>
        (line ++ '\n' :: literal, count + 1)

/-- The literal that opens on a line, blanks before it aside, and how many more lines it takes. -/
def open? (line : Text) (rest : List Text) : Option (Text × Nat) :=
  match Text.trimStart line with
  | '\x7b' :: body => close? .start ('\x7b' :: body) rest
  | _ => none

/-- The literal that opens on the first line that is not blank, and how many lines it ends after.
-/
def openBelow? : List Text → Option (Text × Nat)
  | [] => none
  | line :: rest =>
    let found := if Text.isBlankText line then openBelow? rest else open? line rest
    found.map fun (literal, count) => (literal, count + 1)

/-- The literal of a block that begins with a line, and how many more lines it takes. -/
def literal? (line : Text) (rest : List Text) : Option (Text × Nat) :=
  match Text.after? keyword (Text.trimStart line) with
  | none => none
  | some tail => if Text.isBlankText tail then openBelow? rest else open? tail rest

end Block

namespace Segment

/-- The segments of some lines after the first `skip` of them. -/
def ofLinesFrom : (skip : Nat) → List Text → List Segment
  | _, [] => []
  | skip + 1, _ :: rest => ofLinesFrom skip rest
  | 0, first :: rest =>
    match Block.literal? first rest with
    | none => .line first :: ofLinesFrom 0 rest
    | some (literal, count) =>
      .block ⟨first :: rest.take count, Text.indentation first, literal⟩
        :: ofLinesFrom count rest

/-- The segments of a text. -/
def ofText (text : Text) : List Segment :=
  ofLinesFrom 0 (Text.splitLines text)

/-- The lines of a segment. -/
def lines : Segment → List Text
  | .line text => [text]
  | .block found => found.lines

end Segment

end FeaturePress
