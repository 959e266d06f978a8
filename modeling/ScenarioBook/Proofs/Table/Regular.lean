import ScenarioBook.Proofs.Text.Parts
import ScenarioBook.Table

/-!
# Regular tables

A table is `Built` if the operations on tables make it from an empty one. Every such table is
`Regular`: its headers are trimmed and distinct, and its columns are equally long
(`Built.regular`), so that the row view loses nothing. Headers that are trimmed and distinct are the
headers of the table they are added to (`addHeaders_empty`), a row is added to the row view
(`rows_addRow`), and the table of a single row is written down directly (`withSingleRow_eq_ok`).
-/

set_option autoImplicit false

namespace ScenarioBook.Table

/-- The tables that the operations make. Cells are replaced in place, and a table can be given
another line number. -/
inductive Built : Table → Prop
  | empty (lineNo : Nat) : Built (empty lineNo)
  | addHeaders {t : Table} (h : Built t) (headers : List Text) : Built (t.addHeaders headers)
  | addRow {t : Table} (h : Built t) (cells : List Cell) : Built (t.addRow cells)
  | replace {t t' : Table} (h : Built t)
      (hshape : t'.columns.map (fun col => (col.header, col.cells.length)) =
        t.columns.map fun col => (col.header, col.cells.length)) : Built t'

/-- Headers are trimmed and distinct, and every column has a cell in each row. -/
structure Regular (t : Table) : Prop where
  tight : ∀ h ∈ t.headers, h.Tight
  distinct : t.headers.Nodup
  filled : ∀ col ∈ t.columns, col.cells.length = t.rowCount

/-! ## Headers -/

theorem addHeaders_empty (n : Nat) {headers : List Text} (ht : ∀ h ∈ headers, h.Tight)
    (hd : headers.Nodup) : (empty n).addHeaders headers = ⟨n, headers.map (⟨·, []⟩)⟩ := by
  have hfold : ∀ columns : List Column, (∀ h ∈ headers, h ∉ columns.map (·.header)) →
      (∀ col ∈ columns, col.cells = []) →
      addHeaders ⟨n, columns⟩ headers = ⟨n, columns ++ headers.map (⟨·, []⟩)⟩ := by
    induction headers with
    | nil => simp [addHeaders]
    | cons h headers ih =>
      intro columns hnew hempty
      obtain ⟨hth, hths⟩ := List.forall_mem_cons.1 ht
      obtain ⟨hnot, hnodup⟩ := List.nodup_cons.1 hd
      obtain ⟨hh, hhs⟩ := List.forall_mem_cons.1 hnew
      have hcount : rowCount ⟨n, columns⟩ = 0 := by
        cases columns with
        | nil => rfl
        | cons col cols => simp [rowCount, hempty col List.mem_cons_self]
      have hone : addHeader ⟨n, columns⟩ h = ⟨n, columns ++ [⟨h, []⟩]⟩ := by
        rw [addHeader, Text.trim_eq_self_iff.2 hth, hcount, if_neg]
        · rfl
        · simpa [hasHeader, Table.headers] using hh
      have hrest := ih hths hnodup (columns ++ [⟨h, []⟩])
        (by
          intro h' hh'
          simp only [List.map_append, List.mem_append, List.map_singleton, List.mem_singleton,
            not_or]
          exact ⟨hhs h' hh', fun heq => hnot (heq ▸ hh')⟩)
        (List.forall_mem_append.2 ⟨hempty, by simp⟩)
      rw [addHeaders, List.foldl_cons, hone]
      rw [addHeaders] at hrest
      rw [hrest]
      simp
  exact hfold [] (by simp) (by simp)

/-- A header that is added to a table of `n` rows gets `n` cells. -/
theorem rowCount_addHeader {t : Table} (h : t.columns ≠ []) (header : Text) :
    (t.addHeader header).rowCount = t.rowCount := by
  unfold addHeader
  split
  · rfl
  · obtain ⟨lineNo, columns⟩ := t
    cases columns with
    | nil => exact absurd rfl h
    | cons col cols => rfl

theorem Regular.addHeader {t : Table} (h : t.Regular) (header : Text) :
    (t.addHeader header).Regular := by
  by_cases hpresent : t.hasHeader header.trim
  · rwa [Table.addHeader, if_pos hpresent]
  have hnew : header.trim ∉ t.headers := by simpa [hasHeader] using hpresent
  have hadd : t.addHeader header =
      { t with columns := t.columns ++ [⟨header.trim, List.replicate t.rowCount .empty⟩] } :=
    if_neg hpresent
  have hheaders : (t.addHeader header).headers = t.headers ++ [header.trim] := by
    simp [hadd, headers]
  have hcount : ∀ col ∈ t.columns, (t.addHeader header).rowCount = t.rowCount := fun col hcol =>
    rowCount_addHeader (List.ne_nil_of_mem hcol) header
  refine ⟨?_, ?_, fun col hcol => ?_⟩
  · rw [hheaders]
    exact List.forall_mem_append.2 ⟨h.tight, by simp [Text.tight_trim]⟩
  · rw [hheaders]
    exact List.nodup_append.2 ⟨h.distinct, by simp, by
      rintro _ hmem _ hlast rfl
      exact hnew (List.mem_singleton.1 hlast ▸ hmem)⟩
  · rw [hadd] at hcol
    rcases List.mem_append.1 hcol with hcol | hcol
    · rw [hcount col hcol, h.filled col hcol]
    · -- the new column is as long as the first one, or it is the first one
      rw [List.mem_singleton.1 hcol, List.length_replicate]
      cases hcols : t.columns with
      | nil => simp [hadd, rowCount, hcols]
      | cons first others => rw [hcount first (by simp [hcols])]

theorem Regular.addHeaders {t : Table} (h : t.Regular) (headers : List Text) :
    (t.addHeaders headers).Regular := by
  induction headers generalizing t with
  | nil => exact h
  | cons header headers ih => exact ih (h.addHeader header)

/-! ## Rows -/

theorem headers_pushCells (columns : List Column) (row : List Cell) :
    (pushCells columns row).map (·.header) = columns.map (·.header) := by
  fun_induction pushCells columns row with
  | case1 => rfl
  | case2 col cols row ih => simp [ih]

theorem headers_addRow (t : Table) (row : List Cell) : (t.addRow row).headers = t.headers :=
  headers_pushCells t.columns row

theorem length_cells_pushCells {columns : List Column} {row : List Cell} {col : Column}
    (h : col ∈ pushCells columns row) :
    ∃ old ∈ columns, col.cells.length = old.cells.length + 1 := by
  fun_induction pushCells columns row with
  | case1 => cases h
  | case2 first others row ih =>
    rcases List.mem_cons.1 h with rfl | h
    · exact ⟨first, List.mem_cons_self, by simp⟩
    · obtain ⟨old, hold, hlen⟩ := ih h
      exact ⟨old, List.mem_cons_of_mem _ hold, hlen⟩

theorem rowCount_addRow {t : Table} (h : t.columns ≠ []) (row : List Cell) :
    (t.addRow row).rowCount = t.rowCount + 1 := by
  obtain ⟨lineNo, columns⟩ := t
  cases columns with
  | nil => exact absurd rfl h
  | cons col cols => simp [addRow, pushCells, rowCount]

theorem Regular.addRow {t : Table} (h : t.Regular) (row : List Cell) : (t.addRow row).Regular := by
  refine ⟨t.headers_addRow row ▸ h.tight, t.headers_addRow row ▸ h.distinct, fun col hcol => ?_⟩
  obtain ⟨old, hold, hlen⟩ := length_cells_pushCells hcol
  rw [hlen, h.filled old hold, rowCount_addRow (List.ne_nil_of_mem hold)]

/-- The first cells of a row, filled up with empty cells to a width. -/
def fit (width : Nat) (row : List Cell) : List Cell :=
  (row ++ List.replicate width Cell.empty).take width

theorem fit_succ (width : Nat) (row : List Cell) :
    fit (width + 1) row = row.headD Cell.empty :: fit width row.tail := by
  cases row with
  | nil => simp [fit, List.replicate_succ]
  | cons cell row =>
    simp only [fit, List.cons_append, List.take_succ_cons, List.headD_cons, List.tail_cons]
    rw [List.take_append, List.take_append, List.take_replicate, List.take_replicate]
    congr 3
    omega

theorem cellsAt_addRow {t : Table} (h : t.Regular) (row : List Cell) :
    (t.addRow row).cellsAt t.rowCount = fit t.columns.length row := by
  have hpush : ∀ (columns : List Column) (row : List Cell),
      (∀ col ∈ columns, col.cells.length = t.rowCount) →
      (pushCells columns row).map (fun col => col.cells.getD t.rowCount .empty) =
        fit columns.length row := by
    intro columns row hlen
    fun_induction pushCells columns row with
    | case1 => simp [fit]
    | case2 col cols row ih =>
      obtain ⟨hcol, hcols⟩ := List.forall_mem_cons.1 hlen
      rw [List.map_cons, ih hcols, List.length_cons, fit_succ, ← hcol]
      simp
  exact hpush t.columns row h.filled

theorem cellsAt_addRow_of_lt {t : Table} (h : t.Regular) (row : List Cell) {i : Nat}
    (hi : i < t.rowCount) : (t.addRow row).cellsAt i = t.cellsAt i := by
  have hpush : ∀ (columns : List Column) (row : List Cell),
      (∀ col ∈ columns, col.cells.length = t.rowCount) →
      (pushCells columns row).map (fun col => col.cells.getD i .empty) =
        columns.map fun col => col.cells.getD i .empty := by
    intro columns row hlen
    fun_induction pushCells columns row with
    | case1 => rfl
    | case2 col cols row ih =>
      obtain ⟨hcol, hcols⟩ := List.forall_mem_cons.1 hlen
      rw [List.map_cons, List.map_cons, ih hcols]
      simp [List.getElem?_append_left (hcol ▸ hi)]
  exact hpush t.columns row h.filled

/-- **A row that is added comes last.** -/
theorem rows_addRow {t : Table} (h : t.Regular) (hne : t.columns ≠ []) (row : List Cell) :
    (t.addRow row).rows = t.rows ++ [fit t.columns.length row] := by
  rw [rows, rowCount_addRow hne, List.range_succ, List.map_append, List.map_singleton,
    cellsAt_addRow h, rows]
  congr 1
  exact List.map_congr_left fun i hi => cellsAt_addRow_of_lt h row (List.mem_range.1 hi)

/-! ## All operations -/

theorem headers_of_shape {t t' : Table}
    (h : t'.columns.map (fun col => (col.header, col.cells.length)) =
      t.columns.map fun col => (col.header, col.cells.length)) : t'.headers = t.headers := by
  have := congrArg (List.map Prod.fst) h
  simpa only [headers, List.map_map, Function.comp_def] using this

theorem Regular.of_shape {t t' : Table} (h : t.Regular)
    (hshape : t'.columns.map (fun col => (col.header, col.cells.length)) =
      t.columns.map fun col => (col.header, col.cells.length)) : t'.Regular := by
  have hcount : t'.rowCount = t.rowCount := by
    obtain ⟨lineNo, columns⟩ := t
    obtain ⟨lineNo', columns'⟩ := t'
    cases columns <;> cases columns' <;> simp_all [rowCount]
  refine ⟨headers_of_shape hshape ▸ h.tight, headers_of_shape hshape ▸ h.distinct,
    fun col hcol => ?_⟩
  have hmem : (col.header, col.cells.length) ∈
      t.columns.map fun col => (col.header, col.cells.length) :=
    hshape ▸ List.mem_map_of_mem hcol
  obtain ⟨old, hold, heq⟩ := List.mem_map.1 hmem
  rw [hcount, ← h.filled old hold, (Prod.mk.inj heq).2]

/-- **The operations keep columns equally long and headers trimmed and distinct.** -/
theorem Built.regular {t : Table} (h : t.Built) : t.Regular := by
  induction h with
  | empty lineNo =>
    exact ⟨fun _ hh => (List.not_mem_nil hh).elim, List.nodup_nil,
      fun _ hcol => (List.not_mem_nil hcol).elim⟩
  | addHeaders _ headers ih => exact ih.addHeaders headers
  | addRow _ row ih => exact ih.addRow row
  | replace _ hshape ih => exact ih.of_shape hshape

/-! ## A single row -/

theorem pushCells_map (columns : List Column) (f : Column → Column) (g : Column → Cell) :
    pushCells (columns.map f) (columns.map g) =
      columns.map fun col => { f col with cells := (f col).cells ++ [g col] } := by
  induction columns with
  | nil => rfl
  | cons col cols ih => simp [pushCells, ih]

/-- The columns cut to one row. -/
def single (t : Table) (index : Nat) : Table :=
  { t with columns := t.columns.map fun col => ⟨col.header, [col.cells.getD index .empty]⟩ }

@[simp] theorem headers_single (t : Table) (index : Nat) :
    (t.single index).headers = t.headers := by
  simp [single, headers]

/-- **The table of a single row**, header for header. -/
theorem withSingleRow_eq_ok {t : Table} (h : t.Regular) {index : Nat} (hi : index < t.rowCount) :
    t.withSingleRow index = .ok (t.single index) := by
  have hrow : t.row index = .ok (t.cellsAt index) := if_pos hi
  have hstart : t.headers.map (fun header => (⟨header, []⟩ : Column)) =
      t.columns.map fun col => ⟨col.header, []⟩ := by
    simp [headers]
  simp only [withSingleRow, hrow, bind, Except.bind, pure, Except.pure,
    addHeaders_empty t.lineNo h.tight h.distinct, Table.addRow, hstart, cellsAt, pushCells_map]
  rfl

theorem rowCount_single {t : Table} (h : t.columns ≠ []) (index : Nat) :
    (t.single index).rowCount = 1 := by
  obtain ⟨lineNo, columns⟩ := t
  cases columns with
  | nil => exact absurd rfl h
  | cons col cols => rfl

theorem cellsAt_single (t : Table) (index : Nat) :
    (t.single index).cellsAt 0 = t.cellsAt index := by
  simp [single, cellsAt]

theorem columns_ne_nil_of_rowCount {t : Table} (h : 0 < t.rowCount) : t.columns ≠ [] := by
  intro hnil
  rw [rowCount, hnil] at h
  exact absurd h (Nat.lt_irrefl 0)

theorem Regular.single {t : Table} (h : t.Regular) (index : Nat) : (t.single index).Regular := by
  refine ⟨by simpa using h.tight, by simpa using h.distinct, fun col hcol => ?_⟩
  obtain ⟨old, hold, rfl⟩ := List.mem_map.1 hcol
  rw [rowCount_single (List.ne_nil_of_mem hold)]
  rfl

/-- The single row of a single row. -/
@[simp] theorem single_single (t : Table) (index : Nat) :
    (t.single index).single 0 = t.single index := by
  simp [Table.single]

end ScenarioBook.Table
