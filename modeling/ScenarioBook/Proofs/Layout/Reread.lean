import ScenarioBook.Proofs.Layout.Bare
import ScenarioBook.Proofs.Layout.Lexed
import ScenarioBook.Proofs.Table.Regular

/-!
# The steps and rows of a written document

A token read from a written step or row stands for the step or the row that was written:
the arguments of a step (`readStep_contents`), the cells of a row (`readRow_written`,
`readDataRow_written`). Adding the headers and the rows of a table to an empty one gives the table
(`foldl_addRow_rows`).
-/

set_option autoImplicit false

namespace ScenarioBook

variable {files : FileSource} {names : List Text}

/-! ## Tables -/

namespace Table

/-- The columns cut after some rows. -/
def cut (columns : List Column) (k : Nat) : List Column :=
  columns.map fun col => { col with cells := col.cells.take k }

theorem pushCells_cut {columns : List Column} {k : Nat}
    (h : ∀ col ∈ columns, k < col.cells.length) :
    pushCells (cut columns k) (columns.map fun col => col.cells.getD k .empty) =
      cut columns (k + 1) := by
  induction columns with
  | nil => rfl
  | cons col columns ih =>
    obtain ⟨hcol, hcols⟩ := List.forall_mem_cons.1 h
    have ih := ih hcols
    simp only [cut, List.map_cons, pushCells, List.headD_cons, List.tail_cons] at ih ⊢
    rw [ih, List.take_succ_eq_append_getElem hcol, List.getD_eq_getElem?_getD,
      List.getElem?_eq_getElem hcol]
    rfl

/-- **A table is its headers with its rows added.** -/
theorem foldl_addRow_rows {t : Table} (ht : t.Writable) (n : Nat) :
    t.rows.foldl addRow ((empty n).addHeaders t.headers) = ⟨n, t.columns⟩ := by
  have hstart : (empty n).addHeaders t.headers = ⟨n, cut t.columns 0⟩ := by
    rw [addHeaders_empty n (fun h hh => (ht.headers h hh).2.1) ht.distinct]
    simp [cut, headers]
  have hrows : ∀ k ≤ t.rowCount, ((List.range k).map t.cellsAt).foldl addRow
      ⟨n, cut t.columns 0⟩ = ⟨n, cut t.columns k⟩ := by
    intro k
    induction k with
    | zero => exact fun _ => rfl
    | succ k ih =>
      intro hk
      have hlen : ∀ col ∈ t.columns, k < col.cells.length := fun col hcol => by
        rw [ht.filled col hcol]
        omega
      rw [List.range_succ, List.map_append, List.foldl_append, ih (by omega)]
      simp only [List.map_singleton, List.foldl_cons, List.foldl_nil, addRow, cellsAt]
      rw [pushCells_cut hlen]
  have hfull : cut t.columns t.rowCount = t.columns := by
    refine (List.map_congr_left fun col hcol => ?_).trans (List.map_id _)
    simp [← ht.filled col hcol]
  rw [hstart, rows, hrows _ (Nat.le_refl _), hfull]

end Table

/-! ## Cells -/

namespace Token

variable {frame : Frame} (t : Token)

theorem bracketed?_angle {n : Text} (h : n.Tight) : bracketed? ('<' :: n ++ ['>']) = some n := by
  have htail : ['>'].isSuffixOf? (n ++ ['>']) = some n :=
    List.isSuffixOf?_eq_some_iff_append_eq.2 rfl
  have hstart : ['<'].isPrefixOf? ('<' :: n ++ ['>']) = some (n ++ ['>']) :=
    List.isPrefixOf?_eq_some_iff_append_eq.2 rfl
  rw [bracketed?, hstart]
  simp only [htail, Option.map_some, Text.trim_eq_self_iff.2 h]

theorem readFileCell?_special {p : Text} (hp : p.startsWith "file:".toList)
    (hr : (Reference.resolve files p).isOk) :
    t.readFileCell? files p = some (.special p, []) := by
  rw [readFileCell?, if_pos hp]
  cases h : Reference.resolve files p with
  | ok arg => rfl
  | error fault => rw [h] at hr; cases hr

theorem readCell_written {cell : Cell} (h : cell.Kept files names) (hf : frame.names = names) :
    t.readCell frame files cell.written = (cell, []) := by
  cases cell with
  | literal v => rw [Cell.written, readCell, h]
  | dynamic n =>
    obtain ⟨htight, hfile, hmem⟩ := h
    have hnone : t.readFileCell? files n = none := by
      rw [readFileCell?, if_neg (Bool.eq_false_iff.1 hfile)]
    have hdecl : frame.declares n = true := by simpa [Frame.declares, hf] using hmem
    rw [Cell.written, readCell, bracketed?_angle htight]
    simp only [hnone, hdecl, if_true]
  | special p =>
    obtain ⟨htight, hfile, hr⟩ := h
    rw [Cell.written, readCell, bracketed?_angle htight]
    simp only [t.readFileCell?_special hfile hr]

theorem readDataCell_written {cell : Cell} (h : cell.KeptInData files) :
    t.readDataCell files cell.written = (cell, []) := by
  cases cell with
  | literal v =>
    have hnone : (bracketed? v).bind (t.readFileCell? files) = none := by
      cases hb : bracketed? v with
      | none => rfl
      | some p =>
        rw [Option.bind_some, readFileCell?, if_neg (Bool.eq_false_iff.1 (h p hb))]
    rw [Cell.written, readDataCell, hnone]
  | dynamic n => cases h
  | special p =>
    obtain ⟨htight, hfile, hr⟩ := h
    rw [Cell.written, readDataCell, bracketed?_angle htight, Option.bind_some,
      t.readFileCell?_special hfile hr]

/-- **A written row of an inline table is read back.** -/
theorem readRow_written {row : List Cell} (h : ∀ cell ∈ row, cell.Kept files names)
    (hf : frame.names = names) :
    t.readRow frame files (row.map Cell.written) = (row, []) := by
  have hread : row.map (t.readCell frame files ∘ Cell.written) = row.map (·, []) :=
    List.map_congr_left fun cell hcell => t.readCell_written (h cell hcell) hf
  rw [readRow]
  simp only [List.map_map, hread]
  simp [Function.comp_def]

/-- **A written row of the data table is read back.** -/
theorem readDataRow_written {row : List Cell} (h : ∀ cell ∈ row, cell.KeptInData files) :
    t.readDataRow files (row.map Cell.written) = (row, []) := by
  have hread : row.map (t.readDataCell files ∘ Cell.written) = row.map (·, []) :=
    List.map_congr_left fun cell hcell => t.readDataCell_written (h cell hcell)
  rw [readDataRow]
  simp only [List.map_map, hread]
  simp [Function.comp_def]

/-! ## Steps -/

theorem readArg_raw {arg : Arg} (hr : arg.Readable) (hk : arg.Kept files names)
    (hf : frame.names = names) {raw : RawArg} (hraw : arg.raw? = some raw) :
    t.readArg frame files raw = (arg, []) := by
  cases arg with
  | literal v => cases hraw; rfl
  | dynamic n =>
    cases hraw
    have hdecl : frame.declares n = true := by
      have : n ∈ names := hk
      simpa [Frame.declares, hf] using this
    rw [readArg]
    simp only [hdecl, if_true]
  | special n c | specialTable n c =>
    cases hraw
    rw [readArg]
    simp only [show Reference.resolve files n = _ from hk]
  | table | block => cases hr

theorem map_readArg_raws {args : List Arg}
    (h : ∀ arg ∈ args, arg.Readable ∧ arg.OnOneLine ∧ arg.Kept files names)
    (hf : frame.names = names) :
    (args.filterMap Arg.raw?).map (t.readArg frame files) = args.map (·, []) := by
  induction args with
  | nil => rfl
  | cons arg args ih =>
    obtain ⟨⟨hr, -, hk⟩, hargs⟩ := List.forall_mem_cons.1 h
    obtain ⟨raw, hraw, -⟩ := StepText.segments_inlineText hr []
    rw [List.filterMap_cons_some hraw, List.map_cons, List.map_cons, ih hargs,
      t.readArg_raw hr hk hf hraw]

end Token

/-- The step on the line of a token. -/
def Step.placed (s : Step) (t : Token) : Step :=
  { s with lineNo := t.lineNo, lineText := t.lineText }

@[simp] theorem Step.bare_placed (s : Step) (t : Token) : (s.placed t).bare = s.bare := rfl

/-- **A written step is read back**, with the block below it. -/
theorem Token.readStep_contents {s : Step} (h : s.Writable files names) {frame : Frame}
    (hf : frame.names = names) (t : Token) :
    t.readStep frame files s.line.value (s.line.args.filterMap Arg.raw?) s.block? =
      ((s.line.withBlock s.block?).placed t, []) := by
  have hargs := t.map_readArg_raws h.args hf
  have hstep : (⟨t.lineNo, s.line.value, t.lineText, s.line.args, false⟩ : Step) =
      s.line.placed t := by
    rw [Step.placed, ← h.flag]
  unfold readStep
  simp only [hargs, List.map_map, List.flatMap_map, Function.comp_def, List.map_id']
  cases hb : s.block? with
  | none => simp [hstep, Step.withBlock]
  | some contents =>
    have hnil : s.line.args = [] := (h.block contents hb).1
    rw [hnil] at hstep
    simp only [hnil, hstep, List.filterMap_nil, List.isEmpty_nil, if_true, List.flatMap_nil]
    rfl

end ScenarioBook
