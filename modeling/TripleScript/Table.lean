import TripleScript.Node

/-!
# Result tables

A query answers with a table: named columns and rows of nodes. For the user
it is drawn as a grid. Every column is as wide as its widest cell, counted in
characters, rules run above and below the names and below the last row, and
cells are filled up with blanks on the right.

`Table.drawn` is the grid, from `widths`, `rule` and `line`.
-/

namespace TripleScript

/-- The answer to a query. -/
structure Table where
  /-- The names of the columns. -/
  columns : List String := []
  /-- The rows, each with a node for every column. -/
  rows : List (List Node) := []
deriving DecidableEq, Inhabited, Repr

namespace Table

/-- The nodes of the first column of a name, from the rows that are long
enough to have one. -/
def column? (t : Table) (name : String) : Option (List Node) :=
  (t.columns.idxOf? name).map fun i => t.rows.filterMap (·[i]?)

/-- The cells of the grid below the names. -/
def cells (t : Table) : List (List String) :=
  t.rows.map (·.map Node.written)

/-- The widths of the columns with one more row of cells. Cells without a
column do not count. -/
def widen : List Nat → List String → List Nat
  | w :: ws, c :: cs => max w c.length :: widen ws cs
  | ws, _ => ws

/-- The width of each column. -/
def widths (t : Table) : List Nat :=
  t.cells.foldl widen (t.columns.map String.length)

/-- A line of the grid that separates rows. -/
def rule (widths : List Nat) : String :=
  String.join (widths.map fun w => "+" ++ String.ofList (List.replicate (w + 2) '-'))
    ++ "+\n"

/-- A cell, filled up to a width. The width is any number here; the limit of
formatters that keep widths in 16 bits, and break off at a cell of more than
65535 characters, is left out. -/
def fill (cell : String) (width : Nat) : String :=
  cell ++ String.ofList (List.replicate (width - cell.length) ' ')

/-- A line of the grid that shows cells. -/
def line (widths : List Nat) (cells : List String) : String :=
  String.join ((cells.zip widths).map fun (c, w) => s!"| {fill c w} ") ++ "|\n"

/-- The lines of the grid. -/
def gridLines (t : Table) : List String :=
  let ws := t.widths
  [rule ws, line ws t.columns, rule ws] ++ t.cells.map (line ws) ++ [rule ws]

/-- **The table as a grid.** -/
def drawn (t : Table) : String :=
  String.join t.gridLines

end Table

end TripleScript
