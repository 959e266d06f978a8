import ScenarioBook.Proofs.Frame.Bound
import ScenarioBook.Proofs.Table.Regular
import ScenarioBook.Resolution

/-!
# Templates

A scenario that is resolved without a row is a template: columns of the data table stay references.
Filling in the values of a row gives what the scenario resolves to for that row, and a template that
fails fails in the same way for every row (`Document.resolveScenario_some`).

The reason is that no reference to a column is ever resolved again. Two scopes are `Filled` if each
name stands in the one for what it stands for in the other, with the values filled in. The frames of
no row and of a row are (`Frame.filled_root`), and so are the scopes of a body if those of its call
are (`Scope.Filled.enter`): tables handed to the call hold columns, but they stay as they are.
-/

set_option autoImplicit false

namespace ScenarioBook

/-! ## Filling in values -/

/-- The values of a row by column. -/
def Table.valuesAt (t : Table) (index : Nat) (name : Text) : Option Text :=
  (t.columns.find? (·.header == name)).map fun col => (col.cells.getD index .empty).value

/-- A cell that names a column becomes a literal cell with its value. -/
def Cell.fill (values : Text → Option Text) : Cell → Cell
  | .dynamic name =>
    match values name with
    | some v => .literal v
    | none => .dynamic name
  | cell => cell

namespace Arg

/-- An argument with the cells of its table filled in. -/
def fillCells (values : Text → Option Text) (arg : Arg) : Arg :=
  arg.mapTable (·.mapCells (Cell.fill values))

/-- An argument that names a column becomes a literal with its value, and a table is filled in. -/
def fill (values : Text → Option Text) : Arg → Arg
  | .dynamic name =>
    match values name with
    | some v => .literal v
    | none => .dynamic name
  | arg => arg.fillCells values

end Arg

namespace ResolvedStep

mutual

/-- A resolved step with the values filled in at every depth. -/
def fill (values : Text → Option Text) : ResolvedStep → ResolvedStep
  | ⟨text, params, children⟩ => ⟨text, params.map (Arg.fill values), fillAll values children⟩

/-- Resolved steps with the values filled in. -/
def fillAll (values : Text → Option Text) : List ResolvedStep → List ResolvedStep
  | [] => []
  | s :: ss => s.fill values :: fillAll values ss

end

end ResolvedStep

/-! ## Lists of results -/

section
variable {ε α β γ : Type}

theorem mapM_map_ok {f : α → Except ε β} {g : β → γ} {h : α → Except ε γ}
    (hfg : ∀ a, h a = (f a).map g) (as : List α) : as.mapM h = (as.mapM f).map (List.map g) := by
  induction as with
  | nil => rfl
  | cons a as ih =>
    rw [List.mapM_cons, List.mapM_cons, hfg, ih]
    cases f a with
    | error => rfl
    | ok b => cases as.mapM f <;> rfl

theorem Table.mapCellsM_map {f : Cell → Except ε Cell} {g : Cell → Cell} {h : Cell → Except ε Cell}
    (hfg : ∀ cell, h cell = (f cell).map g) (t : Table) :
    t.mapCellsM h = (t.mapCellsM f).map (Table.mapCells g) := by
  have hcol : ∀ col : Column,
      (do let cells ← col.cells.mapM h; return { col with cells := cells } : Except ε Column) =
        (do let cells ← col.cells.mapM f; return { col with cells := cells } : Except ε Column).map
          fun col => { col with cells := col.cells.map g } := by
    intro col
    rw [mapM_map_ok hfg]
    cases col.cells.mapM f <;> rfl
  rw [mapCellsM, mapCellsM, mapM_map_ok hcol]
  cases (t.columns.mapM _ : Except ε (List Column)) <;> rfl

end

/-! ## Scopes -/

namespace Scope

/-- Each name stands in `actual` for what it stands for in `template`, with the values filled
in. -/
def Filled (values : Text → Option Text) (template actual : Scope) : Prop :=
  ∀ name, actual.resolve name = (template.resolve name).map (Arg.fill values)

section
variable {values : Text → Option Text} {template actual : Scope}

theorem Filled.resolveCell (h : Filled values template actual) (cell : Cell) :
    actual.resolveCell cell = (template.resolveCell cell).map (Cell.fill values) := by
  cases cell with
  | literal | special => rfl
  | dynamic name =>
    simp only [Scope.resolveCell, h name]
    cases template.resolve name with
    | error => rfl
    | ok arg =>
      cases arg with
      | dynamic inner =>
        simp only [Except.map, Arg.fill, Cell.fill]
        cases values inner <;> rfl
      | _ => rfl

theorem Filled.mapCellsM (h : Filled values template actual) (t : Table) :
    t.mapCellsM actual.resolveCell =
      (t.mapCellsM template.resolveCell).map (Table.mapCells (Cell.fill values)) :=
  Table.mapCellsM_map h.resolveCell t

theorem Filled.resolveArg (h : Filled values template actual) (arg : Arg) :
    actual.resolveArg arg = (template.resolveArg arg).map (Arg.fill values) := by
  cases arg with
  | literal | special | block => rfl
  | dynamic name => exact h name
  | table t | specialTable label t =>
    simp only [Scope.resolveArg, Arg.mapTableM, h.mapCellsM]
    cases t.mapCellsM template.resolveCell <;> rfl

/-- A slot with its table filled in. -/
def fillSlot (values : Text → Option Text) (slot : Text × Option Arg) : Text × Option Arg :=
  (slot.1, slot.2.map (Arg.fillCells values))

/-- References in a slot are not looked at, only tables are. -/
theorem Filled.resolveSlot (h : Filled values template actual) (slot : Text × Option Arg) :
    actual.resolveSlot slot = (template.resolveSlot slot).map (fillSlot values) := by
  obtain ⟨label, held⟩ := slot
  cases held with
  | none => rfl
  | some arg =>
    cases arg with
    | literal | dynamic | special | block => rfl
    | table t | specialTable name t =>
      simp only [Scope.resolveSlot, Arg.table?, Option.isSome, if_true, Scope.resolveArg,
        Arg.mapTableM, h.mapCellsM]
      cases t.mapCellsM template.resolveCell <;> rfl

theorem Filled.resolveFrame (h : Filled values template actual) (frame : Frame) :
    actual.resolveFrame frame = (template.resolveFrame frame).map fun inner =>
      ⟨inner.slots.map (fillSlot values)⟩ := by
  rw [Scope.resolveFrame, Scope.resolveFrame, mapM_map_ok h.resolveSlot]
  cases frame.slots.mapM template.resolveSlot <;> rfl

theorem get_fillSlots (values : Text → Option Text) (frame : Frame) (name : Text) :
    (Frame.mk (frame.slots.map (fillSlot values))).get name =
      (frame.get name).map (Arg.fillCells values) := by
  simp only [Frame.get, Frame.slot?, List.find?_map, Function.comp_def, fillSlot]
  cases frame.slots.find? (·.1 == name) with
  | none => rfl
  | some slot => obtain ⟨_, _ | _⟩ := slot <;> rfl

/-- **The scopes of a body are filled if those of its call are.** -/
theorem Filled.enter (h : Filled values template actual) (frame : Frame) :
    Filled values (child frame template)
      (child ⟨frame.slots.map (fillSlot values)⟩ actual) := by
  intro name
  simp only [Scope.resolve, get_fillSlots]
  cases frame.get name with
  | error => rfl
  | ok arg =>
    cases arg with
    | dynamic inner => exact h inner
    | _ => rfl

end

end Scope

/-! ## Step trees -/

namespace StepTree

variable {values : Text → Option Text}

mutual

/-- **Filled scopes resolve a tree to a template and to the template filled in.** -/
theorem resolve_of_filled {template actual : Scope} (h : Scope.Filled values template actual) :
    (t : StepTree) → t.resolve actual = (t.resolve template).map (ResolvedStep.fill values)
  | .plain s frame => by
    rw [resolve, resolve, mapM_map_ok h.resolveArg]
    cases s.args.mapM template.resolveArg <;> rfl
  | .call s frame body => by
    rw [resolve, resolve, mapM_map_ok h.resolveArg, h.resolveFrame]
    cases s.args.mapM template.resolveArg with
    | error => rfl
    | ok params =>
      cases template.resolveFrame frame with
      | error => rfl
      | ok inner =>
        have hbody := resolveAll_of_filled (h.enter inner) body
        simp only [Except.map, bind, Except.bind, hbody]
        cases resolveAll (.child inner template) body <;> rfl

theorem resolveAll_of_filled {template actual : Scope} (h : Scope.Filled values template actual) :
    (ts : List StepTree) →
      resolveAll actual ts = (resolveAll template ts).map (ResolvedStep.fillAll values)
  | [] => by
    rw [resolveAll, resolveAll]
    rfl
  | t :: ts => by
    rw [resolveAll, resolveAll, resolve_of_filled h t, resolveAll_of_filled h ts]
    cases t.resolve template with
    | error => rfl
    | ok first => cases resolveAll template ts <;> rfl

end

end StepTree

/-! ## The frames of a data table -/

namespace Frame

/-- Distinct names are all declared. -/
theorem ofNames_of_nodup {names : List Text} (h : names.Nodup) :
    ofNames names = ⟨names.map (·, none)⟩ := by
  have hfold : ∀ f : Frame, (∀ name ∈ names, name ∉ f.names) →
      names.foldl declare f = ⟨f.slots ++ names.map (·, none)⟩ := by
    induction names with
    | nil => simp
    | cons name names ih =>
      intro f hf
      obtain ⟨hnot, hnodup⟩ := List.nodup_cons.1 h
      obtain ⟨hname, hnames⟩ := List.forall_mem_cons.1 hf
      have hnew : f.declare name = ⟨f.slots ++ [(name, none)]⟩ :=
        if_neg (by simpa [declares] using hname)
      rw [List.foldl_cons, hnew, ih hnodup]
      · simp
      · intro other hother
        simp only [Frame.names, List.map_append, List.mem_append, List.map_singleton,
          List.mem_singleton, not_or]
        exact ⟨hnames other hother, fun heq => hnot (heq ▸ hother)⟩
  simpa [ofNames, empty] using hfold empty fun _ _ => List.not_mem_nil

theorem fill_map {α : Type} (as : List α) (name : α → Text) (arg : α → Arg) :
    Frame.fill (as.map fun a => (name a, none)) (as.map arg) =
      as.map fun a => (name a, some (arg a)) := by
  induction as with
  | nil => rfl
  | cons a as ih => simp [Frame.fill, ih]

section
variable {t : Table}

/-- Arguments that are bound by column. -/
theorem bind_ofTable (h : t.Regular) (arg : Column → Arg) :
    (ofTable t).bind (t.columns.map arg) =
      ⟨t.columns.map fun col => (col.header, some (arg col))⟩ := by
  rw [Frame.bind, ofTable, ofNames_of_nodup h.distinct, Table.headers, List.map_map]
  exact congrArg Frame.mk (fill_map _ _ _)

theorem get_columns (columns : List Column) (arg : Column → Arg) (name : Text) :
    (Frame.mk (columns.map fun col => (col.header, some (arg col)))).get name =
      match columns.find? (·.header == name) with
      | some col => .ok (arg col)
      | none => .error (.unknownParam name) := by
  simp only [get, slot?, List.find?_map, Function.comp_def]
  cases columns.find? (·.header == name) <;> rfl

theorem passthrough_eq (h : t.Regular) :
    passthrough t = ⟨t.columns.map fun col => (col.header, some (.dynamic col.header))⟩ := by
  rw [passthrough, Table.headers, List.map_map]
  exact bind_ofTable h _

/-- The frame of a valid row has the value of each column. -/
theorem ofRow_eq (h : t.Regular) {index : Nat} (hi : t.isInitialized → index < t.rowCount) :
    ofRow t index = .ok ⟨t.columns.map fun col =>
      (col.header, some (.literal (col.cells.getD index .empty).value))⟩ := by
  unfold ofRow
  split
  case isTrue hinit =>
    have hrow : t.row index = .ok (t.cellsAt index) := if_pos (hi hinit)
    simp only [hrow, Table.cellsAt, List.map_map]
    exact congrArg Except.ok (bind_ofTable h _)
  case isFalse hinit =>
    have hnone : t.columns = [] := by simpa [Table.isInitialized] using hinit
    rw [hnone]
    rfl

/-- **The frames of no row and of a row are filled.** -/
theorem filled_root (h : t.Regular) {index : Nat} (hi : t.isInitialized → index < t.rowCount) :
    ∃ f, ofRow t index = .ok f ∧
      Scope.Filled (t.valuesAt index) (.root (passthrough t)) (.root f) := by
  refine ⟨_, ofRow_eq h hi, fun name => ?_⟩
  rw [passthrough_eq h]
  simp only [Scope.resolve, get_columns]
  cases hcol : t.columns.find? (·.header == name) with
  | none => rfl
  | some col =>
    have hname : col.header = name := by simpa using List.find?_some hcol
    simp only [Except.map, Arg.fill, Table.valuesAt, hname, hcol, Option.map_some]

end

end Frame

/-! ## Scenarios -/

namespace Document
variable {d : Document} {data : DataTable}

/-- **Resolving without a row gives a template.** For every scenario and every valid row, filling
the values of the row into the template gives what the scenario resolves to for that row. If there
is no template, the row has the same error. -/
theorem resolveScenario_some (hd : d.dataTable? = some data) (hb : data.table.Built)
    {index : Nat} (hi : data.table.isInitialized → index < data.table.rowCount) (s : Scenario) :
    d.resolveScenario s (some index) =
      (d.resolveScenario s none).map (ResolvedStep.fillAll (data.table.valuesAt index)) := by
  obtain ⟨frame, hframe, hfilled⟩ := Frame.filled_root hb.regular hi
  have hsome : d.rowFrame (some index) = .ok frame := by
    simp only [rowFrame, hd, hframe]
  have hnone : d.rowFrame none = .ok (.passthrough data.table) := by
    simp only [rowFrame, hd]
  simp only [resolveScenario, hsome, hnone, bind, Except.bind]
  exact StepTree.resolveAll_of_filled hfilled _

/-! ## A table handed to a parameter with the name of a column -/

/-- The column of the data table. -/
def guests : Table :=
  (((Table.empty 2).addHeaders ["guest".toList]).addRow [.literal "ann".toList]).addRow
    [.literal "ben".toList]

/-- A table with this cell. -/
def seat (cell : Cell) : Table := ((Table.empty 5).addHeaders ["seat".toList]).addRow [cell]

/-- A call that hands a table with the column to a parameter of the same name. -/
def seating : StepTree :=
  .call ⟨4, "seat \x7b\x7d".toList, [], [.table (seat (.dynamic "guest".toList))], true⟩
    ((Frame.ofNames ["guest".toList]).bind [.table (seat (.dynamic "guest".toList))])
    [.ofStep ⟨2, "lead \x7b\x7d".toList, [], [.dynamic "guest".toList], false⟩]

/-- A document with the call as its context, and a scenario without steps. -/
def seatings : Document := ⟨[], none, [.dataTable ⟨guests, none⟩, .step seating]⟩

def dinner : Scenario := ⟨⟨"Dinner".toList, 6, .scenario⟩, []⟩

/-- What the call resolves to when the cell does. -/
def seated (cell : Cell) : ResolvedStep :=
  ⟨"seat \x7b\x7d".toList, [.table (seat cell)],
    [⟨"lead \x7b\x7d".toList, [.table (seat cell)], []⟩]⟩

theorem resolveScenario_some_seatings :
    seatings.dataTable? = some ⟨guests, none⟩ ∧ guests.Built ∧
    (guests.isInitialized → 1 < guests.rowCount) ∧
    seatings.resolveScenario dinner none = .ok [seated (.dynamic "guest".toList)] ∧
    seatings.resolveScenario dinner (some 1) = .ok [seated (.literal "ben".toList)] := by
  have hb : guests.Built := .addRow (.addRow (.addHeaders (.empty 2) _) _) _
  have hi : guests.isInitialized → 1 < guests.rowCount := fun _ => by decide
  have hnone : seatings.resolveScenario dinner none = .ok [seated (.dynamic "guest".toList)] := rfl
  have hd : seatings.dataTable? = some ⟨guests, none⟩ := rfl
  have hsome := resolveScenario_some hd hb hi dinner
  rw [hnone] at hsome
  exact ⟨hd, hb, hi, hnone, hsome⟩

end Document

end ScenarioBook
