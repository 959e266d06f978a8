import ScenarioBook.Text.Blank

/-!
# Tables

A table keeps its cells by column, in the order in which the headers were first added. A row exists
only across the columns: row `i` is the `i`-th cell of every column. A row shorter than the header
is filled up with empty literal cells when it is added, a longer one is cut.

`Table.rows` is the row view; `Table.rowCount` reads the first column only, which is right because
every operation keeps the columns equally long.
-/

set_option autoImplicit false

namespace ScenarioBook

/-- A cell is a literal value, the name of a parameter, or a `file:` parameter kept as written. -/
inductive Cell where
  | literal (value : Text)
  | dynamic (name : Text)
  | special (param : Text)
deriving DecidableEq, Repr, Inhabited

namespace Cell

/-- The text a cell carries, without angle brackets. -/
def value : Cell → Text
  | literal v => v
  | dynamic n => n
  | special p => p

/-- An empty literal cell. -/
def empty : Cell := .literal []

/-- The cell names a parameter. -/
def isDynamic : Cell → Bool
  | dynamic _ => true
  | _ => false

/-- A cell as it is written: a parameter stands in angle brackets. -/
def written : Cell → Text
  | literal v => v
  | dynamic n => '<' :: n ++ ['>']
  | special p => '<' :: p ++ ['>']

end Cell

/-- What can be wrong with a question about a table. -/
inductive TableError where
  | columnNotFound (header : Text)
  | rowOutOfRange (index rows : Nat)
deriving DecidableEq, Repr, Inhabited

/-- The wording of a table error. -/
def TableError.message : TableError → String
  | .columnNotFound header => "Table column " ++ header.toStr ++ " not found"
  | .rowOutOfRange index rows =>
    s!"Table row {index} out of range, table has {rows} rows"

/-- A header with the cells below it. -/
structure Column where
  header : Text
  cells : List Cell
deriving DecidableEq, Repr, Inhabited

/-- A table with the line of its header in the source. -/
structure Table where
  lineNo : Nat
  columns : List Column
deriving DecidableEq, Repr, Inhabited

namespace Table

/-- A table without columns. -/
def empty (lineNo : Nat) : Table := ⟨lineNo, []⟩

/-- The headers in order. -/
def headers (t : Table) : List Text := t.columns.map (·.header)

/-- A table is initialized once it has a column. -/
def isInitialized (t : Table) : Bool := !t.columns.isEmpty

/-- The number of rows, zero for a table without columns. -/
def rowCount (t : Table) : Nat :=
  match t.columns with
  | [] => 0
  | c :: _ => c.cells.length

/-- The header is the name of a column. -/
def hasHeader (t : Table) (header : Text) : Bool := t.headers.contains header

/-! ## Building -/

/-- Adds one column under the trimmed header, filled with empty cells. A header that is present
keeps its column. -/
def addHeader (t : Table) (header : Text) : Table :=
  if t.hasHeader header.trim then t
  else { t with columns := t.columns ++ [⟨header.trim, List.replicate t.rowCount .empty⟩] }

/-- Adds headers from left to right. -/
def addHeaders (t : Table) (headers : List Text) : Table := headers.foldl addHeader t

/-- Lays the cells of a row under the columns, from left to right. -/
def pushCells : List Column → List Cell → List Column
  | [], _ => []
  | col :: cols, cells =>
    { col with cells := col.cells ++ [cells.headD .empty] } :: pushCells cols cells.tail

/-- Adds a row, filled up or cut to the number of columns. -/
def addRow (t : Table) (cells : List Cell) : Table :=
  { t with columns := pushCells t.columns cells }

/-- Adds a row of literal cells with trimmed values. -/
def addRowValues (t : Table) (values : List Text) : Table :=
  t.addRow (values.map fun v => .literal v.trim)

/-! ## Reading -/

/-- The cells of a column. -/
def get (t : Table) (header : Text) : Except TableError (List Cell) :=
  match t.columns.find? (·.header == header) with
  | some col => .ok col.cells
  | none => .error (.columnNotFound header)

/-- The cells at a position of every column. -/
def cellsAt (t : Table) (index : Nat) : List Cell :=
  t.columns.map fun col => col.cells.getD index .empty

/-- The cells of a row, in header order. -/
def row (t : Table) (index : Nat) : Except TableError (List Cell) :=
  if index < t.rowCount then .ok (t.cellsAt index)
  else .error (.rowOutOfRange index t.rowCount)

/-- All rows in order. -/
def rows (t : Table) : List (List Cell) := (List.range t.rowCount).map t.cellsAt

/-- The table with one row only. -/
def withSingleRow (t : Table) (index : Nat) : Except TableError Table := do
  let cells ← t.row index
  return ((empty t.lineNo).addHeaders t.headers).addRow cells

/-! ## All cells -/

/-- Every cell replaced, column by column. -/
def mapCells (f : Cell → Cell) (t : Table) : Table :=
  { t with columns := t.columns.map fun col => { col with cells := col.cells.map f } }

/-- Every cell replaced, column by column, up to the first failure. -/
def mapCellsM {ε : Type} (f : Cell → Except ε Cell) (t : Table) : Except ε Table := do
  let columns ← t.columns.mapM fun col => do
    let cells ← col.cells.mapM f
    return { col with cells := cells }
  return { t with columns := columns }

/-- The cells of the table, column by column. -/
def cells (t : Table) : List Cell := t.columns.flatMap (·.cells)

end Table

end ScenarioBook
