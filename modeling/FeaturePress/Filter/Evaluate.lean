import FeaturePress.Data.Row
import FeaturePress.Filter.Expr
import FeaturePress.Filter.Value

/-! Filters: expressions with their text, and which rows they keep. The logical operators look at
their right operand only when the left one does not decide, and have an operand as value.
-/

namespace FeaturePress

/-- Why a filter cannot be used. -/
inductive FilterError where
  | malformed (expression : Text) (fault : Filter.SyntaxFault)
  | unknownField (field : Text)
deriving DecidableEq

/-- The text of a filter error. -/
def FilterError.message : FilterError → Text
  | .malformed expression fault =>
    "invalid filter expression '".toList ++ expression ++ "': ".toList ++ fault.reason
  | .unknownField field => "filter references unknown field '".toList ++ field ++ "'".toList

/-- A filter as written and as read. -/
structure Filter where
  source : Text
  expr : Filter.Expr
deriving DecidableEq

namespace Filter

/-- What an operator other than the logical ones says of two values. -/
def compareValues (op : BinaryOp) (left right : Value) : Bool :=
  match op with
  | .equal => left.equals right
  | .notEqual => !left.equals right
  | .strictlyEqual => left.strictlyEquals right
  | .strictlyNotEqual => !left.strictlyEquals right
  | .less => left.order? right == some .lt
  | .lessOrEqual => (left.order? right).any (·.isLE)
  | .greater => left.order? right == some .gt
  | .greaterOrEqual => (left.order? right).any (·.isGE)
  | .and | .or => false

/-- The value of an expression on a row. -/
def evaluate (row : Row) : Expr → Except FilterError Value
  | .number value => .ok (.number value)
  | .text value => .ok (.text value)
  | .bool value => .ok (.bool value)
  | .null => .ok .null
  | .field name =>
    match row.get? name with
    | some raw => .ok (.ofCell raw)
    | none => .error (.unknownField name)
  | .not operand =>
    match evaluate row operand with
    | .ok value => .ok (.bool (!value.isTrue))
    | .error error => .error error
  | .binary op left right =>
    match evaluate row left with
    | .error error => .error error
    | .ok lhs =>
      match op with
      | .and => if lhs.isTrue then evaluate row right else .ok lhs
      | .or => if lhs.isTrue then .ok lhs else evaluate row right
      | op =>
        match evaluate row right with
        | .error error => .error error
        | .ok rhs => .ok (.bool (compareValues op lhs rhs))

/-- Reads a filter. -/
def parse (source : Text) : Except FilterError Filter :=
  match Expr.ofText source with
  | .ok expr => .ok ⟨source, expr⟩
  | .error fault => .error (.malformed source fault)

/-- Whether a row satisfies a filter. -/
def keeps (filter : Filter) (row : Row) : Except FilterError Bool :=
  (evaluate row filter.expr).map Value.isTrue

end Filter

end FeaturePress
