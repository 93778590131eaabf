import FeaturePress.Proofs.Filter.Comparisons
import FeaturePress.Proofs.Filter.Printing

/-! Cells beside their own text. A cell that is no truth value is loosely equal to a literal with its text,
whether it counts as a number or as a text; a truth value is equal to no text.
-/

namespace FeaturePress.Filter

-----------------------------------------------------------------------------------------
-- Values of cells
-----------------------------------------------------------------------------------------

/-- Whether a cell is read as a truth value. -/
def isFlag (cell : Text) : Bool :=
  cell = "true".toList || cell = "false".toList

theorem Value.ofCell_of_isFlag {cell : Text} (flag : isFlag cell = true)
    : ∃ value, Value.ofCell cell = .bool value := by
  rcases Bool.or_eq_true_iff.mp flag with yes | no
  · exact ⟨true, if_pos (of_decide_eq_true yes)⟩
  · rw [of_decide_eq_true no]
    exact ⟨false, rfl⟩

/-- A cell that is no truth value is the number that it writes, or else its text. -/
theorem Value.ofCell_of_not_isFlag {cell : Text} (other : isFlag cell = false)
    : (∃ value, numberOf? cell = some value ∧ Value.ofCell cell = .number value)
      ∨ Value.ofCell cell = .text cell := by
  simp only [isFlag, Bool.or_eq_false_iff, decide_eq_false_iff_not] at other
  rw [ofCell, if_neg other.1, if_neg other.2]
  cases numberOf? cell with
  | none => exact .inr rfl
  | some value => exact .inl ⟨value, rfl, rfl⟩

/-- A cell equals its own text unless it is a truth value. -/
theorem Value.ofCell_equals_text (cell : Text)
    : (Value.ofCell cell).equals (.text cell) = !isFlag cell := by
  cases flag : isFlag cell with
  | true =>
      obtain ⟨value, known⟩ := ofCell_of_isFlag flag
      rw [known]
      rfl
  | false =>
      rcases ofCell_of_not_isFlag flag with ⟨value, written, known⟩ | known
      · rw [known, equals, written]
        exact Binary64.same_self value
      · rw [known]
        exact beq_self_eq_true cell

-----------------------------------------------------------------------------------------
-- Filters for a text
-----------------------------------------------------------------------------------------

/-- The filter that compares a field with a text between single quotes. -/
def fieldIs (name text : Text) : Text :=
  name ++ " == ".toList ++ '\x27' :: (Text.writeEscaped '\x27' text ++ ['\x27'])

/-- The expression of such a filter. -/
def fieldIsExpr (name text : Text) : Expr :=
  .binary .equal (.field name) (.text text)

variable {row : Row} {name cell : Text}

theorem parse_fieldIs (isName : IsFieldName name) (text : Text)
    : Filter.parse (fieldIs name text) = .ok ⟨fieldIs name text, fieldIsExpr name text⟩ := by
  have derives : Derives _ [.name name, .equal, .text text] (fieldIsExpr name text) :=
    @derives_printed Expr.isCompound (fun _ _ _ => rfl) (fieldIsExpr name text)
  refine parse_of_derives derives.or_of_phrase ?_
  have none : ∀ c ∈ ([] : Text), Text.isBlank c = true := List.forall_mem_nil _
  have space : ∀ c ∈ [' '], Text.isBlank c = true := List.forall_mem_singleton.mpr rfl
  have equates : Token.Spells .equal "==".toList := .symbol rfl
  have written := Token.Written.cons none (.name isName) (.cons space equates
    (.cons space (.text (.inl (Eq.refl '\x27')) text) (.nil none)))
  simpa [fieldIs] using written

theorem keeps_fieldIsExpr (found : row.get? name = some cell) (source text : Text)
    : keeps ⟨source, fieldIsExpr name text⟩ row = .ok ((Value.ofCell cell).equals (.text text)) := by
  have known : evaluate row (.field name) = .ok (.ofCell cell) := by simp only [evaluate, found]
  rw [keeps, fieldIsExpr, evaluate_comparison rfl known rfl]
  rfl

/-- The filter that compares a field with the text of its cell, quoted and with its quotes and backslashes
escaped, is read, and keeps the row exactly if the cell is no truth value.
-/
theorem keeps_own_text (isName : IsFieldName name) (found : row.get? name = some cell)
    : ∃ filter, Filter.parse (fieldIs name cell) = .ok filter ∧ filter.keeps row = .ok (!isFlag cell) :=
  ⟨_, parse_fieldIs isName cell, by rw [keeps_fieldIsExpr found, Value.ofCell_equals_text]⟩

theorem isFieldName_f : IsFieldName "f".toList :=
  ⟨by decide, by rintro c ⟨⟩; rfl, rfl, by decide⟩

/-- A cell with a quote and a backslash. -/
theorem keeps_own_text_escaped
    : ∃ filter, Filter.parse "f == 'it\\'s \\\\'".toList = .ok filter
      ∧ filter.keeps (Row.ofPairs [("f".toList, "it's \\".toList)]) = .ok true :=
  @keeps_own_text _ _ "it's \\".toList isFieldName_f (by decide)

/-- The cell `true` is a truth value, and so not the text of the same letters. -/
theorem flag_not_own_text
    : (Row.ofPairs [("f".toList, "true".toList)]).get? "f".toList = some "true".toList
      ∧ ∃ filter, Filter.parse "f == 'true'".toList = .ok filter
        ∧ filter.keeps (Row.ofPairs [("f".toList, "true".toList)]) = .ok false :=
  have found : (Row.ofPairs [("f".toList, "true".toList)]).get? "f".toList = some "true".toList := by decide
  ⟨found, _, parse_fieldIs isFieldName_f "true".toList, keeps_fieldIsExpr found _ _⟩

end FeaturePress.Filter
