import Mathlib.Data.List.Forall2
import ScenarioBook.Proofs.Layout.Lexed
import ScenarioBook.Proofs.Table.Regular

/-!
# Written tables are read back

A table is written as a header, a line of dashes and a line for each row. Reading these lines gives
one token for each of them, with the texts of the headers, with dashes, and with the texts of the
cells (`tokenize_table`). Cells can hold any text of one line without blanks at its ends: bars and
backslashes are escaped, and a row that is made of dashes is a row like any other.
-/

set_option autoImplicit false

namespace ScenarioBook.Table

theorem tight_written {cell : Cell} (h : cell.value.Tight) : cell.written.Tight := by
  cases cell with
  | literal v => exact h
  | dynamic n | special n => exact Text.tight_bracket (by decide) (by decide) n

theorem not_mem_cell_written {cell : Cell} (h : '\n' ∉ cell.value) : '\n' ∉ cell.written := by
  cases cell with
  | literal v => exact h
  | dynamic n | special n => simpa [Cell.written, Cell.value] using h

/-- Headers of a table are trimmed and distinct, so they only have to be written on one line. -/
theorem Built.legible {t : Table} (ht : t.Built) (hi : t.isInitialized)
    (hh : ∀ h ∈ t.headers, h ≠ [] ∧ '\n' ∉ h)
    (hc : ∀ cell ∈ t.cells, cell.value.Tight ∧ '\n' ∉ cell.value) : t.Legible where
  columns := by simpa [isInitialized] using hi
  headers := fun h hmem => ⟨(hh h hmem).1, ht.regular.tight h hmem, (hh h hmem).2⟩
  distinct := ht.regular.distinct
  cells := fun cell hmem =>
    ⟨tight_written (hc cell hmem).1, not_mem_cell_written (hc cell hmem).2⟩

/-- The contents of the tokens of a legible table. -/
theorem Legible.tokenize {t : Table} (ht : t.Legible) (lay : Layout) :
    ∃ tokens, ScenarioBook.tokenize (lay.table t) = .ok tokens ∧
      tokens.map Token.content = t.contents := by
  have hlines : (Line.ofSource (lay.table t)).map (·.text) = lay.tableLines t := by
    rw [lay.table_eq]
    exact Line.map_text_ofSource fun line => isLine_tableLines ht
  obtain ⟨tokens, lx, hlexed, htokens, -⟩ :=
    Lexer.lexed_table .start [] ht hlines (by decide) (by decide)
  have hrun : Lexer.start.run (Line.ofSource (lay.table t)) = lx := by
    have := hlexed.run
    rwa [List.append_nil, Lexer.run] at this
  refine ⟨tokens, ?_, htokens⟩
  rw [ScenarioBook.tokenize, hrun, hlexed.diagnostics, hlexed.tokens]
  rfl

/-- **A written table is read back.** The first token has the headers, the second is recognised as
the line under them, and each of the others has the texts of one row, in order. -/
theorem tokenize_table {t : Table} (ht : t.Built) (hi : t.isInitialized)
    (hh : ∀ h ∈ t.headers, h ≠ [] ∧ '\n' ∉ h)
    (hc : ∀ cell ∈ t.cells, cell.value.Tight ∧ '\n' ∉ cell.value) (lay : Layout) :
    ∃ header separator lines, tokenize (lay.table t) = .ok (header :: separator :: lines) ∧
      (∃ text, header.content = .tableHeader text t.headers) ∧
      (∃ text cells, separator.content = .tableRow text cells ∧ Row.isSeparator cells) ∧
      List.Forall₂ (fun line row => ∃ text, line.content = .tableRow text (row.map Cell.written))
        lines t.rows := by
  have hl := ht.legible hi hh hc
  obtain ⟨tokens, htokens, hcontents⟩ := hl.tokenize lay
  obtain ⟨header, tokens, rfl, hheader, hcontents⟩ := List.map_eq_cons_iff.1 hcontents
  obtain ⟨separator, lines, rfl, hseparator, hlines⟩ := List.map_eq_cons_iff.1 hcontents
  refine ⟨header, separator, lines, htokens, ⟨_, hheader⟩, ⟨_, _, hseparator, ?_⟩, ?_⟩
  · exact Layout.isSeparator_dashes (tableWidths_ne_nil hl) fun w => tableWidths_pos hl
  · rw [List.map_map] at hlines
    have hall : List.Forall₂ (· = ·) (lines.map Token.content) _ := List.forall₂_eq_eq_eq ▸ hlines
    rw [List.forall₂_map_left_iff, List.forall₂_map_right_iff] at hall
    exact hall.imp fun _ _ h => ⟨_, h⟩

/-! ## Cells that look like something else -/

/-- Headers and cells with bars and backslashes at their ends, a row of dashes, an empty cell. -/
def thorny : Table :=
  ((((Table.empty 1).addHeaders ["a|b".toList, "\\".toList]).addRow
    [.literal "\\|".toList, .dynamic "x|y\\".toList]).addRow
    [.literal "-".toList, .literal "--".toList]).addRow
    [.special "file:a.txt".toList, .literal []]

theorem tokenize_table_thorny :
    (thorny.Built ∧ thorny.isInitialized ∧ (∀ h ∈ thorny.headers, h ≠ [] ∧ '\n' ∉ h) ∧
      ∀ cell ∈ thorny.cells, cell.value.Tight ∧ '\n' ∉ cell.value) ∧
    ∃ header separator lines,
      tokenize (Layout.table ⟨2⟩ thorny) = .ok (header :: separator :: lines) ∧
      (∃ text, header.content = .tableHeader text ["a|b".toList, "\\".toList]) ∧
      (∃ text cells, separator.content = .tableRow text cells ∧ Row.isSeparator cells) ∧
      List.Forall₂ (fun line row => ∃ text, line.content = .tableRow text (row.map Cell.written))
        lines thorny.rows := by
  have hb : thorny.Built := .addRow (.addRow (.addRow (.addHeaders (.empty 1) _) _) _) _
  have hh : ∀ h ∈ thorny.headers, h ≠ [] ∧ '\n' ∉ h := by decide
  have hc : ∀ cell ∈ thorny.cells, cell.value.Tight ∧ '\n' ∉ cell.value := by decide
  exact ⟨⟨hb, rfl, hh, hc⟩, tokenize_table hb rfl hh hc ⟨2⟩⟩

end ScenarioBook.Table
