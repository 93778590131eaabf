import FeaturePress.Filter.Token

/-! Filter expressions and the parser of token lists. Binary operators have four strengths and
group to the left at each; an operand of the tightest is a negation, a parenthesis or a leaf.
-/

namespace FeaturePress.Filter

/-- An operator between two expressions. -/
inductive BinaryOp where
  | and
  | or
  | equal
  | notEqual
  | strictlyEqual
  | strictlyNotEqual
  | less
  | lessOrEqual
  | greater
  | greaterOrEqual
deriving DecidableEq

/-- A filter expression. -/
inductive Expr where
  | number (value : Binary64)
  | text (value : Text)
  | bool (value : Bool)
  | null
  | field (name : Text)
  | not (operand : Expr)
  | binary (op : BinaryOp) (left right : Expr)
deriving DecidableEq

namespace Expr

/-- The operator that a token is at a strength: comparisons bind tightest, with strength 0, then
equalities, conjunctions and, with strength 3, disjunctions.
-/
def operatorAt : Nat → Token → Option BinaryOp
  | 0, .less => some .less
  | 0, .lessOrEqual => some .lessOrEqual
  | 0, .greater => some .greater
  | 0, .greaterOrEqual => some .greaterOrEqual
  | 1, .equal => some .equal
  | 1, .notEqual => some .notEqual
  | 1, .strictlyEqual => some .strictlyEqual
  | 1, .strictlyNotEqual => some .strictlyNotEqual
  | 2, .and => some .and
  | 3, .or => some .or
  | _, _ => none

/-- The expression that a token is on its own. -/
def leaf? : Token → Option Expr
  | .number value => some (.number value)
  | .text value => some (.text value)
  | .yes => some (.bool true)
  | .no => some (.bool false)
  | .null => some .null
  | .name value => some (.field value)
  | _ => none

/-- An expression read from the head of some tokens, and fewer tokens after it. -/
abbrev Step (input : List Token) : Type :=
  { read : Expr × List Token // read.2.length < input.length }

/-- An expression with the tokens after it, which are no more than there were. -/
abbrev Steps (input : List Token) : Type :=
  { read : Expr × List Token // read.2.length ≤ input.length }

mutual
/-- An expression whose operators outside parentheses have a strength below the given one. -/
def readBelow (strength : Nat) (input : List Token) : Except SyntaxFault (Step input) :=
  match strength with
  | 0 => readUnary input
  | strength + 1 =>
    match readBelow strength input with
    | .error fault => .error fault
    | .ok ⟨(left, rest), h⟩ =>
      match readChain strength left rest with
      | .error fault => .error fault
      | .ok ⟨read, hread⟩ => .ok ⟨read, Nat.lt_of_le_of_lt hread h⟩
termination_by (input.length, strength + 1)

/-- The expression that begins with `left` and goes on with operators of one strength. -/
def readChain (strength : Nat) (left : Expr) (input : List Token)
    : Except SyntaxFault (Steps input) :=
  match input with
  | [] => .ok ⟨(left, []), Nat.le_refl _⟩
  | token :: rest =>
    match operatorAt strength token with
    | none => .ok ⟨(left, token :: rest), Nat.le_refl _⟩
    | some op =>
      match readBelow strength rest with
      | .error fault => .error fault
      | .ok ⟨(right, tail), h⟩ =>
        match readChain strength (.binary op left right) tail with
        | .error fault => .error fault
        | .ok ⟨read, hread⟩ =>
          .ok ⟨read, by simp only [List.length_cons] at *; omega⟩
termination_by (input.length, 0)
decreasing_by
  · exact Prod.Lex.left _ _ (by simp)
  · exact Prod.Lex.left _ _ (by simp only [List.length_cons] at *; omega)

/-- A negation, a parenthesis or a leaf. -/
def readUnary (input : List Token) : Except SyntaxFault (Step input) :=
  match input with
  | [] => .error .endOfExpression
  | .not :: rest =>
    match readUnary rest with
    | .error fault => .error fault
    | .ok ⟨(operand, tail), h⟩ =>
      .ok ⟨(.not operand, tail), by simp only [List.length_cons] at *; omega⟩
  | .openParen :: rest =>
    match readBelow 4 rest with
    | .error fault => .error fault
    | .ok ⟨(inner, .closeParen :: tail), h⟩ =>
      .ok ⟨(inner, tail), by simp only [List.length_cons] at *; omega⟩
    | .ok _ => .error .missingParen
  | token :: rest =>
    match leaf? token with
    | some leaf => .ok ⟨(leaf, rest), by simp⟩
    | none => .error (.unexpectedToken token)
termination_by (input.length, 0)
end

/-- The expression that a whole token list forms. -/
def ofTokens (input : List Token) : Except SyntaxFault Expr :=
  match readBelow 4 input with
  | .error fault => .error fault
  | .ok ⟨(expr, []), _⟩ => .ok expr
  | .ok ⟨(_, token :: _), _⟩ => .error (.trailingToken token)

/-- The expression that a text writes. -/
def ofText (input : Text) : Except SyntaxFault Expr :=
  match Token.tokens input with
  | .error fault => .error fault
  | .ok found => ofTokens found

end Expr

end FeaturePress.Filter
