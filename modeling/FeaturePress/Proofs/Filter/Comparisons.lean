import FeaturePress.Proofs.Filter.Lookups

/-! How the comparisons of values go together. The three relations behind the operators, equality within a type,
equality that reads texts and truth values as numbers, and the order, agree wherever two of them speak of the
same values; no double is left out, since none is not a number.
-/

namespace FeaturePress

-----------------------------------------------------------------------------------------
-- Doubles
-----------------------------------------------------------------------------------------

namespace Binary64

theorem same_self (x : Binary64) : x.same x = true :=
  beq_self_eq_true x.rank

theorem same_comm (x y : Binary64) : x.same y = y.same x :=
  BEq.comm

theorem order_swap (x y : Binary64) : (x.order y).swap = y.order x :=
  Std.OrientedOrd.eq_swap.symm

theorem order_eq_eq_iff {x y : Binary64} : x.order y = .eq ↔ x.same y = true := by
  rw [order, same, beq_iff_eq]
  exact Std.LawfulEqOrd.compare_eq_iff_eq

end Binary64

namespace Filter

-----------------------------------------------------------------------------------------
-- Values
-----------------------------------------------------------------------------------------

namespace Value

variable {left right : Value}

/-- Two values are comparable if both are numbers or both are texts. -/
def Comparable : Value → Value → Prop
  | .number _, .number _ | .text _, .text _ => True
  | _, _ => False

theorem strictlyEquals_comm (left right : Value)
    : left.strictlyEquals right = right.strictlyEquals left := by
  cases left <;> cases right <;> simp [strictlyEquals, BEq.comm, Binary64.same_comm]

theorem equals_comm (left right : Value) : left.equals right = right.equals left := by
  cases left <;> cases right <;> simp [equals, strictlyEquals_comm]

theorem equals_of_strictlyEquals (same : left.strictlyEquals right = true) : left.equals right = true := by
  cases left <;> cases right <;> simp_all [equals, strictlyEquals]

theorem order?_swap (left right : Value) : (left.order? right).map Ordering.swap = right.order? left := by
  cases left <;> cases right <;> simp [order?, Binary64.order_swap, ← Std.OrientedOrd.eq_swap]

/-- Values have an order exactly if they are comparable. -/
theorem comparable_iff_isSome_order? : left.Comparable right ↔ (left.order? right).isSome = true := by
  cases left <;> cases right <;> simp [Comparable, order?]

/-- Values are equal in the order exactly if they are comparable and equal within their type. -/
theorem order?_eq_some_eq_iff
    : left.order? right = some .eq ↔ left.strictlyEquals right = true ∧ left.Comparable right := by
  cases left <;> cases right <;>
    simp [Comparable, order?, strictlyEquals, Binary64.order_eq_eq_iff]

/-- Between comparable values both equalities are one. -/
theorem equals_of_comparable (comparable : left.Comparable right)
    : left.equals right = left.strictlyEquals right := by
  cases left <;> cases right <;> simp_all [Comparable, equals]

/-- Where values have an order, it is that of equals exactly if they are equal. -/
theorem equals_iff_of_order?_eq_some {order : Ordering} (known : left.order? right = some order)
    : left.equals right = true ↔ order = .eq := by
  have comparable : left.Comparable right := comparable_iff_isSome_order?.mpr (by rw [known]; rfl)
  have equal := @order?_eq_some_eq_iff left right
  rw [known, Option.some_inj, and_iff_left comparable] at equal
  rw [equals_of_comparable comparable, equal]

end Value

-----------------------------------------------------------------------------------------
-- Operators on values
-----------------------------------------------------------------------------------------

variable {left right : Value}

theorem compareValues_less_iff : compareValues .less left right = true ↔ left.order? right = some .lt := by
  simp [compareValues]

theorem compareValues_greater_iff
    : compareValues .greater left right = true ↔ left.order? right = some .gt := by
  simp [compareValues]

theorem compareValues_lessOrEqual_iff
    : compareValues .lessOrEqual left right = true
      ↔ left.order? right = some .lt ∨ left.order? right = some .eq := by
  rw [compareValues]
  rcases left.order? right with _ | _ | _ | _ <;> simp

/-- Operators that look the other way say the same of swapped values. -/
theorem compareValues_greater_swap (left right : Value)
    : compareValues .greater right left = compareValues .less left right := by
  rw [compareValues, compareValues, ← Value.order?_swap left right]
  rcases left.order? right with _ | _ | _ | _ <;> rfl

theorem compareValues_greaterOrEqual_swap (left right : Value)
    : compareValues .greaterOrEqual right left = compareValues .lessOrEqual left right := by
  rw [compareValues, compareValues, ← Value.order?_swap left right]
  rcases left.order? right with _ | _ | _ | _ <;> rfl

/-- Values of which one is less are not equal, and neither is greater as well. -/
theorem compareValues_exclusive
    : ¬(compareValues .less left right = true ∧ compareValues .equal left right = true)
      ∧ ¬(compareValues .less left right = true ∧ compareValues .greater left right = true)
      ∧ ¬(compareValues .equal left right = true ∧ compareValues .greater left right = true) := by
  rw [compareValues_less_iff, compareValues_greater_iff]
  refine ⟨fun ⟨less, equal⟩ => ?_, fun ⟨less, greater⟩ => ?_, fun ⟨equal, greater⟩ => ?_⟩
  · cases (Value.equals_iff_of_order?_eq_some less).mp equal
  · cases less.symm.trans greater
  · cases (Value.equals_iff_of_order?_eq_some greater).mp equal

theorem compareValues_total (comparable : left.Comparable right)
    : compareValues .less left right = true ∨ compareValues .equal left right = true
      ∨ compareValues .greater left right = true := by
  obtain ⟨order, known⟩ := Option.isSome_iff_exists.mp (Value.comparable_iff_isSome_order?.mp comparable)
  rw [compareValues_less_iff, compareValues_greater_iff, known]
  cases order with
  | lt => exact .inl rfl
  | eq => exact .inr (.inl ((Value.equals_iff_of_order?_eq_some known).mpr rfl))
  | gt => exact .inr (.inr rfl)

-----------------------------------------------------------------------------------------
-- Operators on expressions
-----------------------------------------------------------------------------------------

/-- An operator between two expressions comes out true on a row. -/
def Holds (row : Row) (op : BinaryOp) (first second : Expr) : Prop :=
  evaluate row (.binary op first second) = .ok (.bool true)

variable {row : Row} {op : BinaryOp} {first second : Expr}

theorem evaluate_comparison (comparison : op.isLogical = false) (knownLeft : evaluate row first = .ok left)
    (knownRight : evaluate row second = .ok right)
    : evaluate row (.binary op first second) = .ok (.bool (compareValues op left right)) := by
  have takes : op.takesRight left = true := by
    cases op <;> simp_all [BinaryOp.isLogical, BinaryOp.takesRight]
  rw [evaluate_binary_of_takesRight knownLeft takes, knownRight]
  simp [Except.map, BinaryOp.result, comparison]

theorem holds_iff (comparison : op.isLogical = false) (knownLeft : evaluate row first = .ok left)
    (knownRight : evaluate row second = .ok right)
    : Holds row op first second ↔ compareValues op left right = true := by
  simp [Holds, evaluate_comparison comparison knownLeft knownRight]

theorem evaluate_mirrored {mirrored : BinaryOp} (comparison : op.isLogical = false)
    (comparisonToo : mirrored.isLogical = false) (knownLeft : evaluate row first = .ok left)
    (knownRight : evaluate row second = .ok right)
    (same : compareValues op left right = compareValues mirrored right left)
    : evaluate row (.binary op first second) = evaluate row (.binary mirrored second first) := by
  rw [evaluate_comparison comparison knownLeft knownRight,
    evaluate_comparison comparisonToo knownRight knownLeft, same]

/-- On a row where two expressions have values, the comparisons between them come out true or false and go
together: the equalities do not depend on the side, the strict one implies the loose one and each has its
complement; the order may be read from either side; at most one of less, equal and greater is true, and one is if
the values are comparable; and the bounds hold where the values are less, or comparable and strictly equal.
-/
theorem comparisons_coherent (knownLeft : evaluate row first = .ok left)
    (knownRight : evaluate row second = .ok right)
    : (∀ op : BinaryOp, op.isLogical = false
        → ∃ told, evaluate row (.binary op first second) = .ok (.bool told))
      ∧ evaluate row (.binary .equal first second) = evaluate row (.binary .equal second first)
      ∧ (Holds row .strictlyEqual first second → Holds row .equal first second)
      ∧ (Holds row .notEqual first second ↔ ¬Holds row .equal first second)
      ∧ (Holds row .strictlyNotEqual first second ↔ ¬Holds row .strictlyEqual first second)
      ∧ evaluate row (.binary .less first second) = evaluate row (.binary .greater second first)
      ∧ evaluate row (.binary .lessOrEqual first second)
        = evaluate row (.binary .greaterOrEqual second first)
      ∧ ¬(Holds row .less first second ∧ Holds row .equal first second)
      ∧ ¬(Holds row .less first second ∧ Holds row .greater first second)
      ∧ ¬(Holds row .equal first second ∧ Holds row .greater first second)
      ∧ (left.Comparable right → Holds row .less first second ∨ Holds row .equal first second
          ∨ Holds row .greater first second)
      ∧ (Holds row .lessOrEqual first second
          ↔ Holds row .less first second
            ∨ (Holds row .strictlyEqual first second ∧ left.Comparable right)) := by
  have tells {op : BinaryOp} (comparison : op.isLogical = false) :=
    holds_iff comparison knownLeft knownRight
  have mirror {op mirrored : BinaryOp} (comparison : op.isLogical = false)
      (comparisonToo : mirrored.isLogical = false) :=
    evaluate_mirrored comparison comparisonToo knownLeft knownRight
  obtain ⟨lessEqual, lessGreater, equalGreater⟩ := @compareValues_exclusive left right
  -- from the outcomes of the seven operators between the two expressions to those on their values
  rw [tells rfl, tells rfl, tells rfl, tells rfl, tells rfl, tells rfl, tells rfl]
  refine ⟨fun op comparison => ⟨_, evaluate_comparison comparison knownLeft knownRight⟩,
    mirror rfl rfl (Value.equals_comm left right), Value.equals_of_strictlyEquals, ?complement,
    ?strictComplement, mirror rfl rfl (compareValues_greater_swap left right).symm,
    mirror rfl rfl (compareValues_greaterOrEqual_swap left right).symm, lessEqual, lessGreater,
    equalGreater, compareValues_total, ?bounds⟩
  case complement | strictComplement => simp [compareValues]
  case bounds =>
    rw [compareValues_lessOrEqual_iff, compareValues_less_iff, Value.order?_eq_some_eq_iff]
    rfl

/-- A row with a negative zero. -/
def zeroRow : Row :=
  Row.ofPairs [("z".toList, "-0".toList)]

/-- The two zeros are equal and bound each other. -/
theorem comparisons_coherent_zeros
    : evaluate zeroRow (.field "z".toList) = .ok (.number Binary64.zero.neg)
      ∧ evaluate zeroRow (.number .zero) = .ok (.number .zero)
      ∧ Holds zeroRow .lessOrEqual (.field "z".toList) (.number .zero)
      ∧ Holds zeroRow .greaterOrEqual (.number .zero) (.field "z".toList)
      ∧ ¬Holds zeroRow .less (.field "z".toList) (.number .zero) := by
  have known : evaluate zeroRow (.field "z".toList) = .ok (.number Binary64.zero.neg) := rfl
  have zero : evaluate zeroRow (.number .zero) = .ok (.number .zero) := rfl
  have strict : Holds zeroRow .strictlyEqual (.field "z".toList) (.number .zero) := by
    rw [holds_iff rfl known zero]
    rfl
  obtain ⟨-, -, loose, -, -, -, mirrored, apart, -, -, -, bounds⟩ := comparisons_coherent known zero
  have bounded := bounds.mpr (.inr ⟨strict, trivial⟩)
  exact ⟨known, zero, bounded, mirrored.symm.trans bounded, fun less => apart ⟨less, loose strict⟩⟩

end Filter

end FeaturePress
