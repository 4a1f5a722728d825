import AtomTimeline.Text.Blank

/-!
Tables in plain text.

* `Table.widths` gives each column the width of its longest cell, within bounds; `fit` gives a cell
  the width of its column.
* `Table.text` is the table: a line of headers, a dashed line, and a line for each row.
-/

namespace AtomTimeline

/-- A table. Each row has as many cells as there are headers. -/
structure Table where
  headers : List String
  rows : List (List String)
  deriving DecidableEq, Repr

/-- The width that no column exceeds. Longer cells are cut and end in dots. -/
def maxColumnWidth : Nat := 80

/-- What a cut cell ends in. -/
def cutMark : List Char := ['.', '.', '.']

/-- A cell in the width of its column. In columns that are hardly wider than the mark nothing is
cut. -/
def fit (width : Nat) (cell : List Char) : List Char :=
  if cell.length ≤ width ∨ width ≤ cutMark.length then cell.rightpad width ' '
  else cell.take (width - cutMark.length) ++ cutMark

namespace Table

/-- The width of the longest cell in each column so far, widened by a row. A column that the row
does not reach stays as it was. -/
def widen : (widths : List Nat) → (row : List String) → List Nat
  | width :: widths, cell :: row => max width cell.length :: widen widths row
  | widths, _ => widths

/-- The widths of the columns. -/
def widths (t : Table) : List Nat :=
  (t.rows.foldl widen (t.headers.map String.length)).map (min maxColumnWidth)

/-- The cells of a line in the widths of their columns. -/
def fitted (widths : List Nat) (cells : List String) : List (List Char) :=
  List.zipWith (fun width (cell : String) => fit width cell.toList) widths cells

/-- A line of cells before white space at its end is taken off. -/
def untrimmedLine (widths : List Nat) (cells : List String) : List Char :=
  List.intercalate [' ', '|', ' '] (fitted widths cells)

/-- A line of cells. -/
def line (widths : List Nat) (cells : List String) : List Char :=
  trimBlankEnd (untrimmedLine widths cells)

/-- The line below the headers. -/
def dashes (widths : List Nat) : List Char :=
  List.intercalate ['-', '+', '-'] (widths.map fun width => List.replicate width '-')

/-- The lines of a table with rows. -/
def lines (t : Table) : List (List Char) :=
  let widths := t.widths
  line widths t.headers :: dashes widths :: t.rows.map (line widths)

/-- The text of a table. -/
def text (t : Table) : String :=
  if t.rows = [] then "(no results)\n"
  else String.ofList (t.lines.flatMap fun line => line ++ ['\n'])

end Table

end AtomTimeline
