import Mathlib.Data.List.Induction
import ScenarioBook.Proofs.Resolution.Scope
import ScenarioBook.Proofs.Table.Regular

/-!
# Tables as lists of rows

A table is kept by column, but it behaves as a list of rows (`RowList`): a new header puts an empty
cell at the end of every row, a row is cut or filled up to the number of headers, and cells are
replaced where they stand. Each operation on a regular table is the operation on its rows, and it
fails where that one fails (`Table.Regular.apply_toRowList`); so after any operations on an empty
table the rows are those of the list, the headers are the distinct names in the order in which they
came, and every cell of every row is there to be read (`Table.after_toRowList`).
-/

set_option autoImplicit false

namespace ScenarioBook

/-- What each result has in common with its element, the results have with the elements. -/
theorem map_of_mapM {ε α β γ : Type} {f : α → Except ε β} (key : α → γ) (key' : β → γ)
    (h : ∀ a b, f a = .ok b → key' b = key a) {as : List α} {bs : List β}
    (hbs : as.mapM f = .ok bs) : bs.map key' = as.map key := by
  induction as generalizing bs with
  | nil =>
    cases hbs
    rfl
  | cons a as ih =>
    obtain ⟨b, others, hb, hothers, rfl⟩ := mapM_cons_eq_ok hbs
    rw [List.map_cons, List.map_cons, h a b hb, ih hothers]

namespace Table

/-! ## Cells replaced in place -/

/-- Every cell replaced where it stands, given its column and its row. -/
def replaceCells (f : Nat → Nat → Cell → Cell) (t : Table) : Table :=
  { t with columns := t.columns.mapIdx fun j col => { col with cells := col.cells.mapIdx (f j) } }

/-- The headers, each with the number of cells below it. -/
def shape (t : Table) : List (Text × Nat) := t.columns.map fun col => (col.header, col.cells.length)

theorem shape_replaceCells (f : Nat → Nat → Cell → Cell) (t : Table) :
    (t.replaceCells f).shape = t.shape := by
  refine List.ext_getElem (by simp [shape, replaceCells]) fun i h h' => ?_
  simp [shape, replaceCells]

/-- **Replacing cells in place** gives just the tables of the same shape, in whatever order the
cells are visited. -/
theorem exists_replaceCells_iff {t t' : Table} :
    (∃ f, t.replaceCells f = t') ↔ t'.lineNo = t.lineNo ∧ t'.shape = t.shape := by
  constructor
  · rintro ⟨f, rfl⟩
    exact ⟨rfl, shape_replaceCells f t⟩
  · rintro ⟨hline, hshape⟩
    obtain ⟨lineNo, columns⟩ := t
    obtain ⟨lineNo', columns'⟩ := t'
    obtain rfl : lineNo' = lineNo := hline
    have hlen : columns'.length = columns.length := by
      simpa [shape] using congrArg List.length hshape
    refine ⟨fun j i _ => ((columns'[j]?.bind (·.cells[i]?)).getD .empty), ?_⟩
    rw [replaceCells, Table.mk.injEq]
    refine ⟨rfl, List.ext_getElem (by simp [hlen]) fun j hj hj' => ?_⟩
    have hcol : (columns'[j].header, columns'[j].cells.length) =
        (columns[j].header, columns[j].cells.length) := by
      have := List.getElem_of_eq hshape (i := j) (by simpa [shape] using hj')
      simpa [shape] using this
    obtain ⟨hheader, hcells⟩ := Prod.mk.inj hcol
    rw [List.getElem_mapIdx, Column.mk.injEq]
    refine ⟨hheader.symm, List.ext_getElem (by simp [hcells]) fun i hi hi' => ?_⟩
    simp [List.getElem?_eq_getElem hj', List.getElem?_eq_getElem hi']

theorem mapCells_eq_replaceCells (f : Cell → Cell) (t : Table) :
    t.mapCells f = t.replaceCells fun _ _ => f := by
  have hconst : ∀ {α β : Type} (g : α → β) (as : List α), as.mapIdx (fun _ => g) = as.map g :=
    fun g as => List.ext_getElem (by simp) fun i hi hi' => by simp
  simp only [mapCells, replaceCells, hconst]

/-- Cells that are resolved one by one are replaced where they stand. -/
theorem exists_replaceCells_of_mapCellsM {ε : Type} {f : Cell → Except ε Cell} {t t' : Table}
    (h : t.mapCellsM f = .ok t') : ∃ g, t.replaceCells g = t' := by
  unfold mapCellsM at h
  obtain ⟨columns, hcolumns, hpure⟩ := bind_eq_ok h
  cases hpure
  refine exists_replaceCells_iff.2 ⟨rfl, map_of_mapM _ _ (fun col col' hcol => ?_) hcolumns⟩
  obtain ⟨cells, hcells, hpure⟩ := bind_eq_ok hcol
  cases hpure
  have hlen := map_of_mapM (fun _ => ()) (fun _ => ()) (fun _ _ _ => rfl) hcells
  simpa using congrArg List.length hlen

/-! ## Operations -/

/-- An operation on a table. -/
inductive Op where
  | addHeaders (headers : List Text)
  | addRow (cells : List Cell)
  | addRowValues (values : List Text)
  | replaceCells (f : Nat → Nat → Cell → Cell)
  | withSingleRow (index : Nat)

/-- The headers that an operation names. -/
def Op.headers : Op → List Text
  | .addHeaders headers => headers
  | _ => []

/-- The table that an operation gives. -/
def apply (t : Table) : Op → Except TableError Table
  | .addHeaders headers => .ok (t.addHeaders headers)
  | .addRow cells => .ok (t.addRow cells)
  | .addRowValues values => .ok (t.addRowValues values)
  | .replaceCells f => .ok (t.replaceCells f)
  | .withSingleRow index => t.withSingleRow index

/-- The table after an operation. One that fails leaves the table as it is. -/
def next (t : Table) (op : Op) : Table := (t.apply op).toOption.getD t

/-- The table after operations one by one. -/
def after (t : Table) (ops : List Op) : Table := ops.foldl next t

end Table

/-- A table as a list of rows. -/
structure RowList where
  lineNo : Nat
  headers : List Text
  rows : List (List Cell)

namespace RowList

/-- A new header puts an empty cell at the end of every row; one that is there changes nothing. -/
def addHeader (l : RowList) (header : Text) : RowList :=
  if header.trim ∈ l.headers then l
  else { l with headers := l.headers ++ [header.trim], rows := l.rows.map (· ++ [.empty]) }

/-- A row is cut or filled up to the number of headers. Without headers there are no rows. -/
def addRow (l : RowList) (cells : List Cell) : RowList :=
  if l.headers = [] then l else { l with rows := l.rows ++ [Table.fit l.headers.length cells] }

/-- The rows that an operation gives. -/
def apply (l : RowList) : Table.Op → Except TableError RowList
  | .addHeaders headers => .ok (headers.foldl addHeader l)
  | .addRow cells => .ok (l.addRow cells)
  | .addRowValues values => .ok (l.addRow (values.map fun v => .literal v.trim))
  | .replaceCells f =>
    .ok { l with rows := l.rows.mapIdx fun i row => row.mapIdx fun j cell => f j i cell }
  | .withSingleRow index =>
    match l.rows[index]? with
    | some row => .ok { l with rows := [row] }
    | none => .error (.rowOutOfRange index l.rows.length)

/-- The rows after an operation. One that fails leaves them as they are. -/
def next (l : RowList) (op : Table.Op) : RowList := (l.apply op).toOption.getD l

/-- The rows after operations one by one. -/
def after (l : RowList) (ops : List Table.Op) : RowList := ops.foldl next l

end RowList

namespace Table

/-- The rows of a table. -/
def toRowList (t : Table) : RowList := ⟨t.lineNo, t.headers, t.rows⟩

@[simp] theorem toRowList_headers (t : Table) : t.toRowList.headers = t.headers := rfl

@[simp] theorem toRowList_rows (t : Table) : t.toRowList.rows = t.rows := rfl

theorem headers_eq_nil_iff {t : Table} : t.headers = [] ↔ t.columns = [] := by
  simp [headers]

theorem rows_eq_nil {t : Table} (h : t.columns = []) : t.rows = [] := by
  simp [rows, rowCount, h]

theorem length_rows (t : Table) : t.rows.length = t.rowCount := by
  simp [rows]

/-- The row view has the cells at a position of every column. -/
theorem getElem?_rows {t : Table} {index : Nat} (h : index < t.rowCount) :
    t.rows[index]? = some (t.cellsAt index) := by
  simp [rows, h]

/-! ## Each operation on the rows -/

theorem toRowList_addHeader (t : Table) (header : Text) :
    (t.addHeader header).toRowList = t.toRowList.addHeader header := by
  by_cases hpresent : header.trim ∈ t.headers
  · rw [addHeader, if_pos (by simpa [hasHeader] using hpresent), RowList.addHeader,
      toRowList_headers, if_pos hpresent]
  have hadd : t.addHeader header =
      { t with columns := t.columns ++ [⟨header.trim, List.replicate t.rowCount .empty⟩] } :=
    if_neg (by simpa [hasHeader] using hpresent)
  rw [RowList.addHeader, toRowList_headers, if_neg hpresent, toRowList, toRowList_rows,
    RowList.mk.injEq]
  refine ⟨by rw [hadd]; rfl, by simp [hadd, headers], ?_⟩
  by_cases hcols : t.columns = []
  · rw [rows_eq_nil hcols]
    simp [rows, rowCount, hadd, hcols]
  · rw [rows, rowCount_addHeader hcols, rows, List.map_map]
    refine List.map_congr_left fun i hi => ?_
    simp [hadd, cellsAt, List.mem_range.1 hi]

theorem toRowList_addHeaders (t : Table) (headers : List Text) :
    (t.addHeaders headers).toRowList = headers.foldl RowList.addHeader t.toRowList := by
  induction headers generalizing t with
  | nil => rfl
  | cons header headers ih =>
    rw [addHeaders, List.foldl_cons, ← addHeaders, ih, toRowList_addHeader, List.foldl_cons]

theorem Regular.toRowList_addRow {t : Table} (h : t.Regular) (cells : List Cell) :
    (t.addRow cells).toRowList = t.toRowList.addRow cells := by
  by_cases hcols : t.columns = []
  · have hsame : t.addRow cells = t := by
      obtain ⟨lineNo, columns⟩ := t
      obtain rfl : columns = [] := hcols
      rfl
    rw [hsame, RowList.addRow, toRowList_headers, if_pos (headers_eq_nil_iff.2 hcols)]
  · rw [RowList.addRow, toRowList_headers, if_neg (mt headers_eq_nil_iff.1 hcols), toRowList,
      RowList.mk.injEq]
    refine ⟨rfl, headers_addRow t cells, ?_⟩
    rw [rows_addRow h hcols]
    simp [headers]

theorem Regular.toRowList_replaceCells {t : Table} (h : t.Regular) (f : Nat → Nat → Cell → Cell) :
    (t.replaceCells f).toRowList =
      ⟨t.lineNo, t.headers, t.rows.mapIdx fun i row => row.mapIdx fun j cell => f j i cell⟩ := by
  have hcount : (t.replaceCells f).rowCount = t.rowCount := by
    obtain ⟨lineNo, columns⟩ := t
    cases columns with
    | nil => rfl
    | cons col cols => simp [replaceCells, rowCount, List.mapIdx_cons]
  rw [toRowList, RowList.mk.injEq]
  refine ⟨rfl, headers_of_shape (shape_replaceCells f t), ?_⟩
  refine List.ext_getElem (by simp [rows, hcount]) fun i hi hi' => ?_
  have hrow : i < t.rowCount := by simpa [rows, hcount] using hi
  simp only [rows, List.getElem_map, List.getElem_range, List.getElem_mapIdx, cellsAt,
    replaceCells]
  refine List.ext_getElem (by simp) fun j hj hj' => ?_
  have hcol : j < t.columns.length := by simpa using hj
  have hcell : i < t.columns[j].cells.length := by
    rwa [h.filled _ (List.getElem_mem hcol)]
  simp [hcell]

theorem withSingleRow_eq_error {t : Table} {index : Nat} (h : ¬ index < t.rowCount) :
    t.withSingleRow index = .error (.rowOutOfRange index t.rowCount) := by
  rw [withSingleRow, row, if_neg h]
  rfl

/-- A table of a single row is made of a row that is there. -/
theorem Regular.withSingleRow_eq_ok_iff {t t' : Table} (h : t.Regular) {index : Nat} :
    t.withSingleRow index = .ok t' ↔ index < t.rowCount ∧ t.single index = t' := by
  by_cases hi : index < t.rowCount
  · simp [withSingleRow_eq_ok h hi, hi]
  · simp [withSingleRow_eq_error hi, hi]

theorem Regular.toRowList_withSingleRow {t : Table} (h : t.Regular) (index : Nat) :
    (t.withSingleRow index).map toRowList = t.toRowList.apply (.withSingleRow index) := by
  by_cases hi : index < t.rowCount
  · have hone : (t.single index).rows = [t.cellsAt index] := by
      rw [rows, rowCount_single (columns_ne_nil_of_rowCount (by omega)), List.range_one,
        List.map_singleton, cellsAt_single]
    rw [withSingleRow_eq_ok h hi, RowList.apply, toRowList_rows, getElem?_rows hi]
    simp only [Except.map, toRowList, hone, headers_single]
    rfl
  · have hnone : t.rows[index]? = none := by
      rw [List.getElem?_eq_none_iff, length_rows]
      omega
    rw [withSingleRow_eq_error hi, RowList.apply, toRowList_rows, hnone, length_rows]
    rfl

/-- **An operation on a regular table is the operation on its rows.** -/
theorem Regular.apply_toRowList {t : Table} (h : t.Regular) (op : Op) :
    (t.apply op).map toRowList = t.toRowList.apply op := by
  cases op with
  | addHeaders headers => rw [apply, Except.map, toRowList_addHeaders]; rfl
  | addRow cells => rw [apply, Except.map, h.toRowList_addRow]; rfl
  | addRowValues values => rw [apply, Except.map, addRowValues, h.toRowList_addRow]; rfl
  | replaceCells f => rw [apply, Except.map, h.toRowList_replaceCells]; rfl
  | withSingleRow index => exact h.toRowList_withSingleRow index

theorem Regular.apply {t t' : Table} (h : t.Regular) {op : Op} (ht : t.apply op = .ok t') :
    t'.Regular := by
  cases op with
  | addHeaders headers => cases ht; exact h.addHeaders headers
  | addRow cells => cases ht; exact h.addRow cells
  | addRowValues values => cases ht; exact h.addRow _
  | replaceCells f => cases ht; exact h.of_shape (shape_replaceCells f t)
  | withSingleRow index =>
    obtain ⟨-, rfl⟩ := h.withSingleRow_eq_ok_iff.1 ht
    exact h.single index

/-! ## Headers -/

/-- The headers are the first occurrences of the names. -/
def NamedBy (t : Table) (names : List Text) : Prop := t.headers = names.eraseDups

theorem NamedBy.addHeader {t : Table} {names : List Text} (h : t.NamedBy names) (header : Text) :
    (t.addHeader header).NamedBy (names ++ [header.trim]) := by
  have hnames : t.headers = names.eraseDups := h
  rw [NamedBy, Table.addHeader, List.eraseDups_append, ← hnames]
  by_cases hname : header.trim ∈ names
  · have hpresent : t.hasHeader header.trim := by simpa [hasHeader, hnames] using hname
    simp [hpresent, List.removeAll, hname]
  · have hnew : ¬ t.hasHeader header.trim := by simpa [hasHeader, hnames] using hname
    simp [hnew, headers, List.removeAll, hname, List.eraseDups_cons]

theorem NamedBy.addHeaders {t : Table} {names : List Text} (h : t.NamedBy names)
    (headers : List Text) : (t.addHeaders headers).NamedBy (names ++ headers.map Text.trim) := by
  induction headers generalizing t names with
  | nil => simpa [Table.addHeaders] using h
  | cons header headers ih => simpa [Table.addHeaders] using ih (h.addHeader header)

theorem NamedBy.apply {t t' : Table} {names : List Text} (h : t.NamedBy names) (hreg : t.Regular)
    {op : Op} (ht : t.apply op = .ok t') : t'.NamedBy (names ++ op.headers.map Text.trim) := by
  have hkeep : t'.headers = t.headers → t'.NamedBy (names ++ []) := by
    intro hsame
    rw [NamedBy, hsame, List.append_nil]
    exact h
  cases op with
  | addHeaders headers => cases ht; exact h.addHeaders headers
  | addRow cells | addRowValues values => cases ht; exact hkeep (headers_addRow t _)
  | replaceCells f => cases ht; exact hkeep (headers_of_shape (shape_replaceCells f t))
  | withSingleRow index =>
    obtain ⟨-, rfl⟩ := hreg.withSingleRow_eq_ok_iff.1 ht
    exact hkeep (headers_single t index)

/-- An operation that fails names no headers. -/
theorem headers_of_apply_eq_error {t : Table} {op : Op} {e : TableError}
    (h : t.apply op = .error e) : op.headers = [] := by
  cases op with
  | addHeaders headers => cases h
  | addRow | addRowValues | replaceCells | withSingleRow => rfl

/-! ## Any operations -/

theorem next_of_ok {t t' : Table} {op : Op} (h : t.apply op = .ok t') : t.next op = t' := by
  rw [next, h]
  rfl

theorem next_of_error {t : Table} {op : Op} {e : TableError} (h : t.apply op = .error e) :
    t.next op = t := by
  rw [next, h]
  rfl

theorem Regular.next {t : Table} (h : t.Regular) (op : Op) : (t.next op).Regular := by
  cases hop : t.apply op with
  | ok t' => rw [next_of_ok hop]; exact h.apply hop
  | error e => rwa [next_of_error hop]

theorem Regular.toRowList_next {t : Table} (h : t.Regular) (op : Op) :
    (t.next op).toRowList = t.toRowList.next op := by
  have hview := h.apply_toRowList op
  cases hop : t.apply op with
  | ok t' => rw [next_of_ok hop, RowList.next, ← hview, hop]; rfl
  | error e => rw [next_of_error hop, RowList.next, ← hview, hop]; rfl

theorem NamedBy.next {t : Table} {names : List Text} (h : t.NamedBy names) (hreg : t.Regular)
    (op : Op) : (t.next op).NamedBy (names ++ op.headers.map Text.trim) := by
  cases hop : t.apply op with
  | ok t' => rw [next_of_ok hop]; exact h.apply hreg hop
  | error e =>
    rw [next_of_error hop, headers_of_apply_eq_error hop, List.map_nil, List.append_nil]
    exact h

/-- What operations one by one make of an empty table. -/
theorem invariants_after (lineNo : Nat) (ops : List Op) :
    ((empty lineNo).after ops).Regular ∧
      ((empty lineNo).after ops).NamedBy ((ops.flatMap Op.headers).map Text.trim) ∧
      ((empty lineNo).after ops).toRowList = RowList.after ⟨lineNo, [], []⟩ ops := by
  induction ops using List.reverseRecOn with
  | nil => exact ⟨(Built.empty lineNo).regular, rfl, rfl⟩
  | append_singleton ops op ih =>
    obtain ⟨hreg, hnamed, hrows⟩ := ih
    have hafter : (empty lineNo).after (ops ++ [op]) = ((empty lineNo).after ops).next op := by
      rw [after, List.foldl_append]
      rfl
    refine ⟨hafter ▸ hreg.next op, ?_, ?_⟩
    · rw [hafter, List.flatMap_append, List.map_append, List.flatMap_singleton]
      exact hnamed.next hreg op
    · rw [hafter, hreg.toRowList_next, hrows, RowList.after, RowList.after, List.foldl_append]
      rfl

/-- **A table is a list of rows.** After any operations on an empty table the rows are those of the
list, and so is what every further operation gives, failures included. The headers are trimmed and
distinct, in the order in which they came. The columns are equally long, so every row can be read,
and each of its cells is there. -/
theorem after_toRowList (lineNo : Nat) (ops : List Op) :
    ((empty lineNo).after ops).toRowList = RowList.after ⟨lineNo, [], []⟩ ops ∧
      (∀ op, (((empty lineNo).after ops).apply op).map toRowList =
        ((empty lineNo).after ops).toRowList.apply op) ∧
      ((empty lineNo).after ops).headers =
        ((ops.flatMap Op.headers).map Text.trim).eraseDups ∧
      ((empty lineNo).after ops).headers.Nodup ∧
      (∀ header ∈ ((empty lineNo).after ops).headers, header.Tight) ∧
      (∀ col ∈ ((empty lineNo).after ops).columns,
        col.cells.length = ((empty lineNo).after ops).rowCount) ∧
      ((empty lineNo).after ops).rows.length = ((empty lineNo).after ops).rowCount ∧
      ∀ i < ((empty lineNo).after ops).rowCount, ∃ row,
        ((empty lineNo).after ops).row i = .ok row ∧
          ((empty lineNo).after ops).rows[i]? = some row ∧
          ((empty lineNo).after ops).columns.map (·.cells[i]?) = row.map some := by
  obtain ⟨hreg, hnamed, hrows⟩ := invariants_after lineNo ops
  refine ⟨hrows, hreg.apply_toRowList, hnamed, hreg.distinct, hreg.tight, hreg.filled,
    length_rows _, fun i hi => ⟨_, if_pos hi, getElem?_rows hi, ?_⟩⟩
  rw [cellsAt, List.map_map]
  refine List.map_congr_left fun col hcol => ?_
  have hcell : i < col.cells.length := by rwa [hreg.filled col hcol]
  simp [hcell]

end Table

end ScenarioBook
