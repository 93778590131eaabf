import FeaturePress.Data.Row
import FeaturePress.Examples.Block

/-! Examples tables: a keyword line, a header line with the names of the first row, and a line for
every row.
-/

namespace FeaturePress.Table

/-- The text of a cell, where the delimiter is written with a backslash. -/
def cell (value : Text) : Text :=
  Text.replaceChar '|' ['\\', '|'] value

/-- A line of cells. -/
def line (indent : Text) (cells : List Text) : Text :=
  indent ++ "  | ".toList ++ List.intercalate " | ".toList (cells.map cell) ++ " |".toList

/-- The values of a row under some names; absent ones are empty. -/
def valuesOf (names : List Text) (row : Row) : List Text :=
  names.map fun name => (row.get? name).getD []

/-- The lines of the table of some rows. -/
def lines (indent : Text) (rows : List Row) : List Text :=
  let names := (rows.head?.map Row.names).getD []
  (indent ++ Block.keyword) :: line indent names
    :: rows.map fun row => line indent (valuesOf names row)

end FeaturePress.Table
