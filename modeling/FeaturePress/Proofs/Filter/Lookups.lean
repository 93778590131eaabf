import FeaturePress.Filter.Evaluate

/-! What a filter reads of a row. The fields of an expression are reached from left to right, and those in the
right operand of a logical operator only where the value of the left one leaves the result to it. Evaluation
fails exactly at the first field reached that the row lacks, and depends on no field behind it.
-/

namespace FeaturePress

/-- Whether a row has no cell of a name. -/
def Row.lacks (row : Row) (name : Text) : Bool :=
  (row.get? name).isNone

namespace Filter

-----------------------------------------------------------------------------------------
-- Operators
-----------------------------------------------------------------------------------------

/-- Whether an operator has one of its operands as value. -/
def BinaryOp.isLogical : BinaryOp → Bool
  | .and | .or => true
  | _ => false

/-- Whether an operator goes on to its right operand behind a left one of a value. -/
def BinaryOp.takesRight : BinaryOp → Value → Bool
  | .and, left => left.isTrue
  | .or, left => !left.isTrue
  | _, _ => true

/-- The value of an operator that has gone on to its right operand. -/
def BinaryOp.result (op : BinaryOp) (left right : Value) : Value :=
  if op.isLogical then right else .bool (compareValues op left right)

variable {row : Row} {op : BinaryOp} {left right : Expr} {value : Value}

theorem evaluate_field (row : Row) (name : Text)
    : evaluate row (.field name)
      = match row.get? name with
        | some raw => .ok (.ofCell raw)
        | none => .error (.unknownField name) := rfl

theorem evaluate_not (row : Row) (operand : Expr)
    : evaluate row (.not operand) = (evaluate row operand).map fun value => .bool (!value.isTrue) := by
  rw [evaluate]
  cases evaluate row operand <;> rfl

/-- Behind a left operand with a value, an operator goes on to the right one or has that value. -/
theorem evaluate_binary (row : Row) (op : BinaryOp) (left right : Expr)
    : evaluate row (.binary op left right)
      = match evaluate row left with
        | .error error => .error error
        | .ok value => if op.takesRight value then (evaluate row right).map (op.result value) else .ok value := by
  rw [evaluate]
  cases evaluate row left with
  | error error => rfl
  | ok value =>
      cases op <;> cases evaluate row right <;> cases h : value.isTrue <;>
        simp [h, BinaryOp.takesRight, BinaryOp.result, BinaryOp.isLogical, Except.map]

theorem evaluate_binary_of_error {error : FilterError} (failed : evaluate row left = .error error)
    : evaluate row (.binary op left right) = .error error := by
  rw [evaluate_binary, failed]

theorem evaluate_binary_of_decided (known : evaluate row left = .ok value)
    (decided : op.takesRight value = false)
    : evaluate row (.binary op left right) = .ok value := by
  simp [evaluate_binary, known, decided]

theorem evaluate_binary_of_takesRight (known : evaluate row left = .ok value)
    (takes : op.takesRight value = true)
    : evaluate row (.binary op left right) = (evaluate row right).map (op.result value) := by
  simp [evaluate_binary, known, takes]

-----------------------------------------------------------------------------------------
-- Fields in the order in which they are reached
-----------------------------------------------------------------------------------------

/-- The fields that an expression names. -/
def Expr.names : Expr → List Text
  | .field name => [name]
  | .not operand => operand.names
  | .binary _ left right => left.names ++ right.names
  | .number _ | .text _ | .bool _ | .null => []

/-- The fields of an expression from left to right, whether the row has them or not. Those in the right operand
of a logical operator are among them only if the left one has a value that leaves the result to it.
-/
def reached (row : Row) : Expr → List Text
  | .field name => [name]
  | .not operand => reached row operand
  | .binary op left right =>
    reached row left ++
      match evaluate row left with
      | .ok value => if op.takesRight value then reached row right else []
      | .error _ => if op.isLogical then [] else reached row right
  | .number _ | .text _ | .bool _ | .null => []

/-- A field is visited if it is reached behind fields that the row has. -/
def Visits (row : Row) (expr : Expr) (name : Text) : Prop :=
  ∃ before behind, reached row expr = before ++ name :: behind ∧ ∀ other ∈ before, row.lacks other = false

theorem reached_field (row : Row) (name : Text) : reached row (.field name) = [name] := rfl

theorem reached_binary (row : Row) (op : BinaryOp) (left right : Expr)
    : reached row (.binary op left right)
      = reached row left ++
        match evaluate row left with
        | .ok value => if op.takesRight value then reached row right else []
        | .error _ => if op.isLogical then [] else reached row right := rfl

theorem reached_subset_names (row : Row) (expr : Expr) : reached row expr ⊆ expr.names := by
  induction expr with
  | number | text | bool | null | field => exact List.Subset.refl _
  | not operand ih => exact ih
  | binary op left right first last =>
      refine List.append_subset.mpr ⟨List.subset_append_of_subset_left _ first, ?_⟩
      refine List.subset_append_of_subset_right _ ?_
      split <;> split
      · exact last
      · exact List.nil_subset _
      · exact List.nil_subset _
      · exact last

theorem reached_binary_of_decided (known : evaluate row left = .ok value)
    (decided : op.takesRight value = false)
    : reached row (.binary op left right) = reached row left := by
  simp [reached_binary, known, decided]

theorem reached_binary_of_takesRight (known : evaluate row left = .ok value)
    (takes : op.takesRight value = true)
    : reached row (.binary op left right) = reached row left ++ reached row right := by
  simp [reached_binary, known, takes]

-----------------------------------------------------------------------------------------
-- Where evaluation fails
-----------------------------------------------------------------------------------------

/-- An expression has a value where the row has all fields reached, and else fails at the first that it lacks.
By induction on the expression: a left operand that fails does so at a field that stands in front of all others,
and one that has a value has all its fields on the row.
-/
theorem evaluate_outcome (row : Row) (expr : Expr)
    : ((reached row expr).find? row.lacks = none ∧ ∃ value, evaluate row expr = .ok value)
      ∨ ∃ name, (reached row expr).find? row.lacks = some name
        ∧ evaluate row expr = .error (.unknownField name) := by
  induction expr with
  | number | text | bool | null => exact .inl ⟨rfl, _, rfl⟩
  | field name =>
      cases found : row.get? name with
      | none => exact .inr ⟨name, by simp [reached_field, Row.lacks, found], by simp [evaluate_field, found]⟩
      | some raw =>
          exact .inl ⟨by simp [reached_field, Row.lacks, found], .ofCell raw, by simp [evaluate_field, found]⟩
  | not operand ih =>
      rcases ih with ⟨none, value, known⟩ | ⟨name, first, failed⟩
      · exact .inl ⟨none, .bool (!value.isTrue), by rw [evaluate_not, known]; rfl⟩
      · exact .inr ⟨name, first, by rw [evaluate_not, failed]; rfl⟩
  | binary op left right onLeft onRight =>
      rcases onLeft with ⟨none, value, known⟩ | ⟨name, first, failed⟩
      · cases takes : op.takesRight value with
        | false =>
            rw [reached_binary_of_decided known takes]
            exact .inl ⟨none, value, evaluate_binary_of_decided known takes⟩
        | true =>
            rw [reached_binary_of_takesRight known takes, evaluate_binary_of_takesRight known takes,
              List.find?_append, none, Option.none_or]
            rcases onRight with ⟨noneRight, other, knownRight⟩ | ⟨name, first, failed⟩
            · exact .inl ⟨noneRight, op.result value other, by rw [knownRight]; rfl⟩
            · exact .inr ⟨name, first, by rw [failed]; rfl⟩
      · refine .inr ⟨name, ?_, evaluate_binary_of_error failed⟩
        rw [reached_binary, List.find?_append, first, Option.some_or]

theorem find?_reached_eq_none (known : evaluate row left = .ok value)
    : (reached row left).find? row.lacks = none := by
  rcases evaluate_outcome row left with ⟨none, -⟩ | ⟨name, -, failed⟩
  · exact none
  · cases known.symm.trans failed

theorem evaluate_eq_error_iff {expr : Expr} {error : FilterError}
    : evaluate row expr = .error error
      ↔ ∃ name, (reached row expr).find? row.lacks = some name ∧ error = .unknownField name := by
  rcases evaluate_outcome row expr with ⟨none, value, known⟩ | ⟨name, first, failed⟩
  · simp [none, known]
  · simp [first, failed, eq_comm]

-----------------------------------------------------------------------------------------
-- What evaluation depends on
-----------------------------------------------------------------------------------------

theorem Visits.binary_left {name : Text} (visits : Visits row left name)
    : Visits row (.binary op left right) name := by
  obtain ⟨before, behind, shape, present⟩ := visits
  exact ⟨before, _, by rw [reached_binary, shape, List.append_assoc, List.cons_append], present⟩

/-- Behind a left operand with a value, all fields that are reached before those of the right one are there. -/
theorem Visits.binary_right {name : Text} (known : evaluate row left = .ok value)
    (takes : op.takesRight value = true) (visits : Visits row right name)
    : Visits row (.binary op left right) name := by
  obtain ⟨before, behind, shape, present⟩ := visits
  have presentLeft : ∀ other ∈ reached row left, row.lacks other = false := by
    simpa using List.find?_eq_none.mp (find?_reached_eq_none known)
  refine ⟨reached row left ++ before, behind, ?_, List.forall_mem_append.mpr ⟨presentLeft, present⟩⟩
  rw [reached_binary_of_takesRight known takes, shape, List.append_assoc]

/-- An expression has the same outcome on every row with the same cells in the fields visited. -/
theorem evaluate_congr {expr : Expr} {other : Row}
    (agree : ∀ name, Visits row expr name → other.get? name = row.get? name)
    : evaluate other expr = evaluate row expr := by
  induction expr with
  | number | text | bool | null => rfl
  | field name =>
      have same := agree name ⟨[], [], rfl, List.forall_mem_nil _⟩
      rw [evaluate_field, evaluate_field, same]
  | not operand ih => rw [evaluate_not, evaluate_not, ih agree]
  | binary op left right onLeft onRight =>
      have sameLeft := onLeft fun name visits => agree name visits.binary_left
      cases known : evaluate row left with
      | error error =>
          rw [evaluate_binary_of_error known, evaluate_binary_of_error (sameLeft.trans known)]
      | ok value =>
          have knownOther := sameLeft.trans known
          cases takes : op.takesRight value with
          | false =>
              rw [evaluate_binary_of_decided known takes, evaluate_binary_of_decided knownOther takes]
          | true =>
              have sameRight := onRight fun name visits => agree name (visits.binary_right known takes)
              rw [evaluate_binary_of_takesRight known takes, evaluate_binary_of_takesRight knownOther takes,
                sameRight]

-----------------------------------------------------------------------------------------
-- Filters
-----------------------------------------------------------------------------------------

theorem keeps_eq_error_iff {filter : Filter} {error : FilterError}
    : filter.keeps row = .error error ↔ evaluate row filter.expr = .error error := by
  rw [keeps]
  cases evaluate row filter.expr <;> simp [Except.map]

/-- A filter fails on a row exactly if it reaches a field that the row lacks, and names the first one. So it does
not fail where the row has every field that the filter names, and it says the same of every other row that has
the same cells, or lacks them too, in the fields visited.
-/
theorem keeps_reads_reached (filter : Filter) (row : Row)
    : (∀ error, filter.keeps row = .error error
        ↔ ∃ name, (reached row filter.expr).find? row.lacks = some name ∧ error = .unknownField name)
      ∧ ((∀ name ∈ filter.expr.names, row.lacks name = false) → ∃ kept, filter.keeps row = .ok kept)
      ∧ ∀ other : Row, (∀ name, Visits row filter.expr name → other.get? name = row.get? name)
        → filter.keeps other = filter.keeps row := by
  refine ⟨fun error => keeps_eq_error_iff.trans evaluate_eq_error_iff, fun present => ?_, fun other agree => ?_⟩
  · cases outcome : filter.keeps row with
    | ok kept => exact ⟨kept, rfl⟩
    | error error =>
        obtain ⟨name, first, -⟩ := evaluate_eq_error_iff.mp (keeps_eq_error_iff.mp outcome)
        have named := reached_subset_names row _ (List.mem_of_find?_eq_some first)
        have lacking := List.find?_some first
        rw [present name named] at lacking
        cases lacking
  · rw [keeps, keeps, evaluate_congr agree]

/-- The filter `(a && b == 1) || !c`. -/
def guardedFilter : Filter :=
  ⟨"(a && b == 1) || !c".toList,
    .binary .or (.binary .and (.field "a".toList) (.binary .equal (.field "b".toList) (.number .one)))
      (.not (.field "c".toList))⟩

/-- With an empty cell of `a` the field `b` is passed over, so that a row without it fails at `c` only, and two
rows with the same cells of `a` and `c` are told alike whatever they have of `b`.
-/
theorem keeps_reads_reached_passing_over
    : guardedFilter.keeps (Row.ofPairs [("a".toList, [])]) = .error (.unknownField "c".toList)
      ∧ guardedFilter.keeps (Row.ofPairs [("a".toList, []), ("b".toList, ['1']), ("c".toList, ['x'])])
        = guardedFilter.keeps (Row.ofPairs [("c".toList, ['x']), ("a".toList, [])])
      ∧ ∃ kept, guardedFilter.keeps
        (Row.ofPairs [("a".toList, []), ("b".toList, ['1']), ("c".toList, ['x'])]) = .ok kept := by
  refine ⟨((keeps_reads_reached guardedFilter _).1 _).mpr ⟨"c".toList, by decide, rfl⟩,
    (keeps_reads_reached guardedFilter _).2.2 _ ?_, (keeps_reads_reached guardedFilter _).2.1 (by decide)⟩
  rintro name ⟨before, behind, shape, -⟩
  have reaches : reached (Row.ofPairs [("c".toList, ['x']), ("a".toList, [])]) guardedFilter.expr
      = ["a".toList, "c".toList] := by decide
  have member : name ∈ ["a".toList, "c".toList] := by
    rw [← reaches, shape]
    exact List.mem_append_right _ (List.mem_cons_self ..)
  simp only [List.mem_cons, List.not_mem_nil, or_false] at member
  rcases member with rfl | rfl <;> decide

end Filter

end FeaturePress
