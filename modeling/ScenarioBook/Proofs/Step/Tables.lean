import Mathlib.Data.List.Induction
import ScenarioBook.Step

/-!
# Tables below a step

A table that is put below a step is its last argument, and its value gets a placeholder at the end.
So what a step has as the own step of its line and what it has from the tables below it can be told
apart (`Step.foldl_addInlineTable`). A row goes to the last table
(`Step.addInlineRow_addInlineTable`) and changes nothing else (`Step.exists_addInlineRow_foldl`).
-/

set_option autoImplicit false

namespace ScenarioBook

namespace Step

theorem inlineTable?_addInlineTable (s : Step) (table : Table) :
    (s.addInlineTable table).inlineTable? = some table := by
  simp [addInlineTable, pushTrailing, inlineTable?, Arg.table?]

/-- A row goes to the last table. -/
theorem addInlineRow_addInlineTable (s : Step) (table : Table) (row : List Cell) :
    (s.addInlineTable table).addInlineRow row = s.addInlineTable (table.addRow row) := by
  rw [addInlineRow, inlineTable?_addInlineTable]
  simp [addInlineTable, pushTrailing, Arg.mapTable]

/-- Attached tables are the last arguments, each with a placeholder at the end of the value. -/
theorem foldl_addInlineTable (s : Step) (tables : List Table) :
    (tables.foldl addInlineTable s).args = s.args ++ tables.map .table ∧
      (tables.foldl addInlineTable s).value =
        s.value ++ (tables.map fun _ => ' ' :: placeholder).flatten ∧
      (tables.foldl addInlineTable s).hasInlineTable = (s.hasInlineTable || tables ≠ []) := by
  induction tables generalizing s with
  | nil => simp
  | cons table tables ih =>
    obtain ⟨hargs, hvalue, hinline⟩ := ih (s.addInlineTable table)
    refine ⟨?_, ?_, ?_⟩
    · rw [List.foldl_cons, hargs]
      simp [addInlineTable, pushTrailing]
    · rw [List.foldl_cons, hvalue]
      simp [addInlineTable, pushTrailing]
    · rw [List.foldl_cons, hinline]
      simp [addInlineTable]

/-- A row changes nothing but the tables below a step. -/
theorem exists_addInlineRow_foldl {own : Step} (h : own.hasInlineTable = false)
    (tables : List Table) (row : List Cell) : ∃ tables' : List Table,
      (tables.foldl addInlineTable own).addInlineRow row = tables'.foldl addInlineTable own := by
  cases tables using List.reverseRecOn with
  | nil =>
    -- the step has no table yet and takes no row
    exact ⟨[], by simp [addInlineRow, inlineTable?, h]⟩
  | append_singleton tables table =>
    refine ⟨tables ++ [table.addRow row], ?_⟩
    rw [List.foldl_append, List.foldl_append]
    exact addInlineRow_addInlineTable _ table row

theorem isSome_inlineTable?_addInlineRow {s : Step} (h : s.inlineTable?.isSome) (row : List Cell) :
    (s.addInlineRow row).inlineTable?.isSome := by
  rw [addInlineRow, if_pos h]
  unfold inlineTable? at h ⊢
  split at h
  case isFalse => cases h
  case isTrue hi =>
    rw [if_pos hi]
    obtain ⟨table, htable⟩ := Option.isSome_iff_exists.1 h
    obtain ⟨arg, harg, htab⟩ := Option.bind_eq_some_iff.1 htable
    simp only [harg, Option.map_some, Option.toList_some, List.getLast?_concat, Option.bind_some]
    cases arg with
    | table | specialTable => rfl
    | _ => cases htab

/-- Tables below a step give it another value. -/
theorem value_foldl_ne {own : Step} {tables : List Table} (h : tables ≠ []) :
    (tables.foldl addInlineTable own).value ≠ own.value := by
  obtain ⟨table, tables, rfl⟩ := List.exists_cons_of_ne_nil h
  rw [(foldl_addInlineTable own _).2.1]
  intro heq
  have := List.append_cancel_left (heq.trans (List.append_nil _).symm)
  simp at this

/-! ## Lines -/

theorem lineNo_addInlineRow (s : Step) (cells : List Cell) :
    (s.addInlineRow cells).lineNo = s.lineNo := by
  unfold addInlineRow
  split <;> rfl

theorem lineText_addInlineRow (s : Step) (cells : List Cell) :
    (s.addInlineRow cells).lineText = s.lineText := by
  unfold addInlineRow
  split <;> rfl

theorem lineNo_foldl_addInlineTable (s : Step) (tables : List Table) :
    (tables.foldl addInlineTable s).lineNo = s.lineNo := by
  induction tables generalizing s with
  | nil => rfl
  | cons table tables ih => exact ih _

end Step

end ScenarioBook
