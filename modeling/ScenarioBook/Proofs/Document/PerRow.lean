import Mathlib.Data.List.Basic
import ScenarioBook.Proofs.Document.Update
import ScenarioBook.Proofs.Table.Regular
import ScenarioBook.Resolution

/-!
# One document for each row

A document can be split into one document for each row of its data table, or be resolved for a row
that is picked. Both give every scenario the same steps or the same error (`perRow_agrees`). The
copies differ from the document in the rows of the data table only, which steps and scenarios do not
see (`scheduled_mapDataTable`), and the frame of a row depends on the headers and on that row
(`rowFrame_single`).
-/

set_option autoImplicit false

namespace ScenarioBook

/-! ## Another table in its place -/

namespace Document
variable {d : Document}

/-- What steps, scenarios and the teardown show of an item. -/
def itemRoles (i : Item) : Bool × Option StepTree × Option Scenario :=
  (i.isBody, i.step?, i.scenario?)

theorem map_itemRoles_mapDataTable (f : Table → Table) :
    (d.mapDataTable f).items.map itemRoles = d.items.map itemRoles := by
  refine map_updateFirst fun i i' h => ?_
  cases i <;> cases h
  rfl

theorem contexts_eq (d : Document) :
    d.contexts = ((d.items.map itemRoles).takeWhile (·.1)).filterMap (·.2.1) := by
  rw [List.takeWhile_map, List.filterMap_map]
  rfl

theorem tearDownSteps_eq (d : Document) :
    d.tearDownSteps = ((d.items.map itemRoles).dropWhile (·.1)).filterMap (·.2.1) := by
  rw [List.dropWhile_map, List.filterMap_map]
  rfl

theorem scenarios_eq (d : Document) : d.scenarios = (d.items.map itemRoles).filterMap (·.2.2) := by
  rw [List.filterMap_map]
  rfl

theorem scenarios_mapDataTable (f : Table → Table) :
    (d.mapDataTable f).scenarios = d.scenarios := by
  rw [scenarios_eq, map_itemRoles_mapDataTable, ← scenarios_eq]

/-- What runs for a scenario does not depend on the data table. -/
theorem scheduled_mapDataTable (f : Table → Table) (s : Scenario) :
    (d.mapDataTable f).scheduled s = d.scheduled s := by
  rw [scheduled, contexts_eq, tearDownSteps_eq, map_itemRoles_mapDataTable, ← contexts_eq,
    ← tearDownSteps_eq, ← scheduled]

theorem dataTable?_mapDataTable (f : Table → Table) :
    (d.mapDataTable f).dataTable? =
      d.dataTable?.map fun data => { data with table := f data.table } := by
  have h : ∀ items : List Item,
      (updateFirst (Item.mapDataTable? f) items).findSome? Item.dataTable? =
        (items.findSome? Item.dataTable?).map fun data => { data with table := f data.table } := by
    intro items
    induction items with
    | nil => rfl
    | cons i items ih =>
      cases i with
      | dataTable data => rfl
      | _ => exact ih
  exact h d.items

theorem mapDataTable_mapDataTable (f g : Table → Table) :
    (d.mapDataTable f).mapDataTable g = d.mapDataTable (g ∘ f) := by
  have h : ∀ items : List Item,
      updateFirst (Item.mapDataTable? g) (updateFirst (Item.mapDataTable? f) items) =
        updateFirst (Item.mapDataTable? (g ∘ f)) items := by
    intro items
    induction items with
    | nil => rfl
    | cons i items ih =>
      cases i with
      | dataTable data => rfl
      | _ => simpa [updateFirst, Item.mapDataTable?] using ih
  simp only [mapDataTable, h]

/-! ## The copies -/

variable {data : DataTable}

theorem withRow_eq (hr : data.table.Regular) {index : Nat} (hi : index < data.table.rowCount) :
    d.withRow data index = some (d.mapDataTable fun _ => data.table.single index) := by
  rw [withRow, Table.withSingleRow_eq_ok hr hi]

/-- There is a copy for each row. -/
theorem perRow_eq_map (hd : d.dataTable? = some data) (hr : data.table.Regular)
    (hn : data.table.rowCount ≠ 0) :
    d.perRow = (List.range data.table.rowCount).map fun index =>
      d.mapDataTable fun _ => data.table.single index := by
  rw [perRow, hd]
  simp only [if_neg hn]
  exact List.filterMap_eq_map_iff_forall_eq_some.2 fun index hi =>
    withRow_eq hr (List.mem_range.1 hi)

theorem perRow_eq_self (h : ∀ data ∈ d.dataTable?, data.table.rowCount = 0) : d.perRow = [d] := by
  unfold perRow
  cases hd : d.dataTable? with
  | none => rfl
  | some data => exact if_pos (h data hd)

/-- A copy is not split further. -/
theorem perRow_single (hd : d.dataTable? = some data) (hr : data.table.Regular)
    (hn : data.table.rowCount ≠ 0) (index : Nat) :
    (d.mapDataTable fun _ => data.table.single index).perRow =
      [d.mapDataTable fun _ => data.table.single index] := by
  have hcols := Table.columns_ne_nil_of_rowCount (Nat.pos_of_ne_zero hn)
  have hcount : (data.table.single index).rowCount = 1 := Table.rowCount_single hcols index
  have hcopy : (d.mapDataTable fun _ => data.table.single index).dataTable? =
      some { data with table := data.table.single index } := by
    rw [dataTable?_mapDataTable, hd]
    rfl
  rw [perRow_eq_map hcopy (hr.single index) (by rw [hcount]; exact Nat.one_ne_zero), hcount]
  simp [List.range_succ, mapDataTable_mapDataTable, Function.comp_def]

/-! ## The frame of a row -/

/-- The only row of a copy gives the frame of the row it was made from. -/
theorem rowFrame_single (hd : d.dataTable? = some data) {index : Nat}
    (hi : index < data.table.rowCount) :
    (d.mapDataTable fun _ => data.table.single index).rowFrame (some 0) =
      d.rowFrame (some index) := by
  have hcols := Table.columns_ne_nil_of_rowCount (Nat.zero_lt_of_lt hi)
  have hinit : data.table.isInitialized := by simpa [Table.isInitialized] using hcols
  have hsingle : (data.table.single index).isInitialized := by
    simpa [Table.isInitialized, Table.single] using hcols
  have hrow : data.table.row index = .ok (data.table.cellsAt index) := if_pos hi
  have hfirst : (data.table.single index).row 0 = .ok (data.table.cellsAt index) := by
    rw [Table.row, if_pos (by rw [Table.rowCount_single hcols]; exact Nat.one_pos),
      Table.cellsAt_single]
  simp only [rowFrame, dataTable?_mapDataTable, hd, Option.map_some, Frame.ofRow, if_pos hinit,
    if_pos hsingle, hrow, hfirst, Frame.ofTable, Table.headers_single]

theorem resolveScenario_single (hd : d.dataTable? = some data) {index : Nat}
    (hi : index < data.table.rowCount) (s : Scenario) :
    (d.mapDataTable fun _ => data.table.single index).resolveScenario s (some 0) =
      d.resolveScenario s (some index) := by
  rw [resolveScenario, resolveScenario, rowFrame_single hd hi, scheduled_mapDataTable]

/-- **Splitting off a row and picking it agree.** With rows in its data table a document is split
into one copy for each row. A copy is the document with a table of the same line, the same headers
and that one row. It is not split further, and its `k`-th scenario resolves for the only row as the
`k`-th scenario of the document does for the row it was made from, with the same steps or the same
error. Without rows the document is left as it is. -/
theorem perRow_agrees (hb : ∀ data ∈ d.dataTable?, data.table.Built) :
    (∀ data ∈ d.dataTable?, 1 ≤ data.table.rowCount →
      d.perRow.length = data.table.rowCount ∧
      ∀ index copy, d.perRow[index]? = some copy →
        (∃ single : Table, copy = d.mapDataTable (fun _ => single) ∧
          single.lineNo = data.table.lineNo ∧ single.headers = data.table.headers ∧
          single.rows = data.table.rows[index]?.toList) ∧
        copy.perRow = [copy] ∧
        copy.scenarios.length = d.scenarios.length ∧
        ∀ k : Nat, copy.scenarios[k]?.map (copy.resolveScenario · (some 0)) =
          d.scenarios[k]?.map (d.resolveScenario · (some index))) ∧
    ((∀ data ∈ d.dataTable?, data.table.rowCount = 0) → d.perRow = [d]) := by
  refine ⟨fun data hd hn => ?_, perRow_eq_self⟩
  have hr := (hb data hd).regular
  have hmap := perRow_eq_map hd hr (Nat.ne_of_gt hn)
  refine ⟨by simp [hmap], fun index copy hcopy => ?_⟩
  rw [hmap, List.getElem?_map, Option.map_eq_some_iff] at hcopy
  obtain ⟨row, hrow, rfl⟩ := hcopy
  obtain ⟨hlt, rfl⟩ := List.getElem?_eq_some_iff.1 hrow
  rw [List.length_range] at hlt
  rw [List.getElem_range]
  have hcols := Table.columns_ne_nil_of_rowCount hn
  refine ⟨⟨data.table.single index, rfl, rfl, Table.headers_single .., ?_⟩,
    perRow_single hd hr (Nat.ne_of_gt hn) index, by rw [scenarios_mapDataTable], fun k => ?_⟩
  · simp [Table.rows, Table.rowCount_single hcols, List.range_succ, Table.cellsAt_single, hlt]
  · simp only [scenarios_mapDataTable, resolveScenario_single hd hlt]

/-! ## Two guests -/

/-- A document with two rows, a context, a scenario and a step of the teardown, all of which name
the column. -/
def twoGuests : Document where
  fileName := []
  heading := some ⟨"Guests".toList, 1, .spec⟩
  items :=
    [.dataTable ⟨(((Table.empty 2).addHeaders ["guest".toList]).addRow
        [.literal "ann".toList]).addRow [.literal "ben".toList], none⟩,
      .step (.ofStep ⟨4, "open \x7b\x7d".toList, [], [.dynamic "guest".toList], false⟩),
      .scenario ⟨"Arrival".toList, 5, .scenario⟩
        [.step (.ofStep ⟨6, "greet \x7b\x7d".toList, [], [.dynamic "guest".toList], false⟩)],
      .tearDown ⟨"___".toList, 7⟩,
      .step (.ofStep ⟨8, "miss \x7b\x7d".toList, [], [.dynamic "host".toList], false⟩)]

theorem built_twoGuests : ∀ data ∈ twoGuests.dataTable?, data.table.Built := by
  rintro data ⟨⟩
  exact .addRow (.addRow (.addHeaders (.empty 2) _) _) _

theorem perRow_agrees_twoGuests :
    (∀ data ∈ twoGuests.dataTable?, data.table.Built) ∧ twoGuests.perRow.length = 2 ∧
    ∀ copy, twoGuests.perRow[1]? = some copy → copy.perRow = [copy] ∧
      copy.scenarios[0]?.map (copy.resolveScenario · (some 0)) =
        some (.error (.unknownParam "host".toList)) := by
  obtain ⟨hlen, hcopies⟩ := (perRow_agrees built_twoGuests).1 _ rfl (by decide)
  refine ⟨built_twoGuests, hlen, fun copy hcopy => ?_⟩
  obtain ⟨-, hself, -, hsame⟩ := hcopies 1 copy hcopy
  exact ⟨hself, (hsame 0).trans rfl⟩

end Document

end ScenarioBook
