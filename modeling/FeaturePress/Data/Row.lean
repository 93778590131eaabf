import FeaturePress.Text.Basic

/-! Rows of test data: named cells in column order, each name once. -/

namespace FeaturePress

/-- The cells with one more; a name that is there already keeps its place. -/
def setCell (name value : Text) : List (Text × Text) → List (Text × Text)
  | [] => [(name, value)]
  | cell :: cells =>
    if cell.1 = name then (name, value) :: cells else cell :: setCell name value cells

/-- Setting a cell adds its name at most. -/
theorem mem_names_setCell {name value other : Text} {cells : List (Text × Text)}
    (h : other ∈ (setCell name value cells).map (·.1))
    : other = name ∨ other ∈ cells.map (·.1) := by
  induction cells with
  | nil => simpa [setCell] using h
  | cons cell cells ih =>
      simp only [setCell] at h
      split at h
      · simp only [List.map_cons, List.mem_cons] at h ⊢
        exact h.imp_right Or.inr
      · simp only [List.map_cons, List.mem_cons] at h ⊢
        rcases h with h | h
        · exact Or.inr (Or.inl h)
        · exact (ih h).imp_right Or.inr

/-- Setting a cell keeps the names distinct. -/
theorem nodup_setCell (name value : Text) {cells : List (Text × Text)}
    (h : (cells.map (·.1)).Nodup)
    : ((setCell name value cells).map (·.1)).Nodup := by
  induction cells with
  | nil => simp [setCell]
  | cons cell cells ih =>
      simp only [List.map_cons, List.nodup_cons] at h
      simp only [setCell]
      split
      · next heq => simpa [← heq] using h
      · next hne =>
          simp only [List.map_cons, List.nodup_cons]
          refine ⟨fun hmem => ?_, ih h.2⟩
          exact (mem_names_setCell hmem).elim hne h.1

/-- A row of named cells. -/
structure Row where
  cells : List (Text × Text)
  names_nodup : (cells.map (·.1)).Nodup
deriving DecidableEq

namespace Row

/-- The row with a cell set; a new name comes last. -/
def set (row : Row) (name value : Text) : Row :=
  ⟨setCell name value row.cells, nodup_setCell name value row.names_nodup⟩

/-- The row of some pairs: a repeated name keeps its first place and its last value. -/
def ofPairs (pairs : List (Text × Text)) : Row :=
  pairs.foldl (fun row pair => row.set pair.1 pair.2) ⟨[], List.nodup_nil⟩

/-- The names of the cells in column order. -/
def names (row : Row) : List Text :=
  row.cells.map (·.1)

/-- The text of the cell of a name. -/
def get? (row : Row) (name : Text) : Option Text :=
  (row.cells.find? (·.1 = name)).map (·.2)

end Row

end FeaturePress
