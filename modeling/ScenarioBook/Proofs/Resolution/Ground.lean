import ScenarioBook.Proofs.Resolution.Scope

/-!
# Resolved steps hold no reference

An argument is `Ground` if it is no reference and no cell of its table is one. If the outermost
frame binds names to ground arguments only, as a row of the data table does (`Frame.ground_ofRow`),
everything that a step tree resolves to is ground, at every depth (`StepTree.ground_of_resolve`).

References are found in arguments, in frames and in the cells of tables. Those in frames may stay,
because they are followed into the frame below when the body asks for them. The cells of a table
that a frame holds may not: nobody resolves them again once the table is found under its name. So
the invariant on a chain (`Scope.Grounded`) asks of the frames above the outermost one that their
tables are ground, and resolving the frame of a call is what keeps it (`Scope.Grounded.enter`).
-/

set_option autoImplicit false

namespace ScenarioBook

/-- The argument is no reference, and no cell of its table is one. -/
def Arg.Ground (arg : Arg) : Prop :=
  arg.isDynamic = false ∧ ∀ t ∈ arg.table?, ∀ cell ∈ t.cells, cell.isDynamic = false

namespace ResolvedStep

mutual

/-- The arguments of a resolved step and of the steps of its body, at every depth. -/
def allParams : ResolvedStep → List Arg
  | ⟨_, params, children⟩ => params ++ allParamsOf children

/-- The arguments of resolved steps, at every depth. -/
def allParamsOf : List ResolvedStep → List Arg
  | [] => []
  | s :: ss => s.allParams ++ allParamsOf ss

end

end ResolvedStep

/-! ## What is found comes from somewhere -/

theorem Frame.mem_args_of_get {f : Frame} {name : Text} {arg : Arg} (h : f.get name = .ok arg) :
    arg ∈ f.args := by
  unfold get slot? at h
  cases hfind : f.slots.find? (·.1 == name) with
  | none => rw [hfind] at h; cases h
  | some slot =>
    obtain ⟨label, held⟩ := slot
    cases held with
    | none => rw [hfind] at h; cases h
    | some arg' =>
      rw [hfind] at h
      cases h
      exact List.mem_filterMap.2 ⟨_, List.mem_of_find?_eq_some hfind, rfl⟩

theorem Table.exists_of_mem_mapCellsM {ε : Type} {f : Cell → Except ε Cell} {t t' : Table}
    (h : t.mapCellsM f = .ok t') {cell' : Cell} (hc : cell' ∈ t'.cells) :
    ∃ cell ∈ t.cells, f cell = .ok cell' := by
  unfold mapCellsM at h
  obtain ⟨columns, hcolumns, hpure⟩ := bind_eq_ok h
  cases hpure
  obtain ⟨col', hcol', hc⟩ := List.mem_flatMap.1 hc
  obtain ⟨col, hcol, hone⟩ := exists_of_mem_mapM hcolumns hcol'
  obtain ⟨cells, hcells, hpure⟩ := bind_eq_ok hone
  cases hpure
  obtain ⟨cell, hcell, hf⟩ := exists_of_mem_mapM hcells hc
  exact ⟨cell, List.mem_flatMap.2 ⟨col, hcol, hcell⟩, hf⟩

/-! ## Scopes -/

namespace Scope

/-- The outermost frame holds ground arguments, every other frame holds references and ground
arguments. -/
def Grounded : Scope → Prop
  | root f => ∀ arg ∈ f.args, arg.Ground
  | child f p => (∀ arg ∈ f.args, arg.isDynamic = false → arg.Ground) ∧ p.Grounded

section
variable {scope : Scope}

/-- **A name stands for a ground argument.** -/
theorem Grounded.resolve (h : scope.Grounded) {name : Text} {arg : Arg}
    (hr : scope.resolve name = .ok arg) : arg.Ground := by
  induction scope generalizing name with
  | root f => exact h arg (Frame.mem_args_of_get hr)
  | child f p ih =>
    obtain ⟨hf, hp⟩ := h
    cases hget : f.get name with
    | error e => rw [Scope.resolve, hget] at hr; cases hr
    | ok found =>
      have hfound := hf found (Frame.mem_args_of_get hget)
      cases found with
      | dynamic inner =>
        rw [Scope.resolve, hget] at hr
        exact ih hp hr
      | _ =>
        rw [Scope.resolve, hget] at hr
        cases hr
        exact hfound rfl

theorem Grounded.resolveCell (h : scope.Grounded) {cell cell' : Cell}
    (hr : scope.resolveCell cell = .ok cell') : cell'.isDynamic = false := by
  cases cell with
  | literal | special => cases hr; rfl
  | dynamic name =>
    cases hfound : scope.resolve name with
    | error e => rw [Scope.resolveCell, hfound] at hr; cases hr
    | ok arg =>
      have hground := h.resolve hfound
      rw [Scope.resolveCell, hfound] at hr
      cases arg with
      | dynamic inner => cases hground.1
      | _ => cases hr; rfl

theorem Grounded.mapCellsM (h : scope.Grounded) {t t' : Table}
    (hr : t.mapCellsM scope.resolveCell = .ok t') : ∀ cell ∈ t'.cells, cell.isDynamic = false := by
  intro cell' hc
  obtain ⟨cell, -, hcell⟩ := Table.exists_of_mem_mapCellsM hr hc
  exact h.resolveCell hcell

/-- **An argument resolves to a ground one**: a reference to what it stands for, a table to one
without references. -/
theorem Grounded.resolveArg (h : scope.Grounded) {arg arg' : Arg}
    (hr : scope.resolveArg arg = .ok arg') : arg'.Ground := by
  cases arg with
  | literal | special | block => cases hr; exact ⟨rfl, by rintro _ ⟨⟩⟩
  | dynamic name => exact h.resolve hr
  | table t | specialTable label t =>
    obtain ⟨t', ht', heq⟩ := map_eq_ok hr
    cases heq
    refine ⟨rfl, ?_⟩
    rintro _ ⟨⟩
    exact h.mapCellsM ht'

/-- Resolving a slot leaves a reference, or something ground. -/
theorem Grounded.resolveSlot (h : scope.Grounded) {slot slot' : Text × Option Arg}
    (hr : scope.resolveSlot slot = .ok slot') {arg : Arg} (ha : slot'.2 = some arg)
    (hd : arg.isDynamic = false) : arg.Ground := by
  obtain ⟨label, held⟩ := slot
  cases held with
  | none => cases hr; cases ha
  | some old =>
    cases old with
    | literal | special | block => cases hr; cases ha; exact ⟨rfl, by rintro _ ⟨⟩⟩
    | dynamic name => cases hr; cases ha; cases hd
    | table t | specialTable name t =>
      obtain ⟨new, hnew, heq⟩ := map_eq_ok hr
      cases heq
      cases ha
      exact h.resolveArg hnew

/-- **The resolved frame of a call keeps the chain grounded.** -/
theorem Grounded.enter (h : scope.Grounded) {frame inner : Frame}
    (hr : scope.resolveFrame frame = .ok inner) : (child inner scope).Grounded := by
  obtain ⟨slots, hslots, heq⟩ := map_eq_ok hr
  cases heq
  refine ⟨fun arg harg hd => ?_, h⟩
  obtain ⟨slot', hslot', ha⟩ := List.mem_filterMap.1 harg
  obtain ⟨slot, -, hslot⟩ := exists_of_mem_mapM hslots hslot'
  exact h.resolveSlot hslot ha hd

end

end Scope

/-! ## Step trees -/

namespace StepTree

theorem ground_of_resolveArgs {scope : Scope} (h : scope.Grounded) {args params : List Arg}
    (hr : args.mapM scope.resolveArg = .ok params) : ∀ arg ∈ params, arg.Ground := by
  intro arg harg
  obtain ⟨old, -, hold⟩ := exists_of_mem_mapM hr harg
  exact h.resolveArg hold

mutual

/-- In a grounded scope a tree resolves to ground arguments only. -/
theorem ground_of_grounded {scope : Scope} (h : scope.Grounded) :
    (t : StepTree) → {r : ResolvedStep} → t.resolve scope = .ok r → ∀ arg ∈ r.allParams, arg.Ground
  | .plain s _, r, hr => by
    rw [resolve] at hr
    obtain ⟨params, hparams, hpure⟩ := bind_eq_ok hr
    cases hpure
    rw [ResolvedStep.allParams, ResolvedStep.allParamsOf, List.append_nil]
    exact ground_of_resolveArgs h hparams
  | .call s frame body, r, hr => by
    rw [resolve] at hr
    obtain ⟨params, hparams, hr⟩ := bind_eq_ok hr
    obtain ⟨inner, hinner, hr⟩ := bind_eq_ok hr
    obtain ⟨children, hchildren, hpure⟩ := bind_eq_ok hr
    cases hpure
    rw [ResolvedStep.allParams]
    exact List.forall_mem_append.2 ⟨ground_of_resolveArgs h hparams,
      ground_of_groundedAll (h.enter hinner) body hchildren⟩

theorem ground_of_groundedAll {scope : Scope} (h : scope.Grounded) :
    (ts : List StepTree) → {rs : List ResolvedStep} → resolveAll scope ts = .ok rs →
      ∀ arg ∈ ResolvedStep.allParamsOf rs, arg.Ground
  | [], rs, hr => by
    rw [resolveAll] at hr
    cases hr
    rw [ResolvedStep.allParamsOf]
    exact fun _ harg => by cases harg
  | t :: ts, rs, hr => by
    rw [resolveAll] at hr
    obtain ⟨first, hfirst, hr⟩ := bind_eq_ok hr
    obtain ⟨others, hothers, hpure⟩ := bind_eq_ok hr
    cases hpure
    rw [ResolvedStep.allParamsOf]
    exact List.forall_mem_append.2
      ⟨ground_of_grounded h t hfirst, ground_of_groundedAll h ts hothers⟩

end

end StepTree

/-! ## Rows of the data table -/

/-- **A row binds its columns to ground arguments.** -/
theorem Frame.ground_ofRow {t : Table} {index : Nat} {f : Frame} (h : ofRow t index = .ok f) :
    ∀ arg ∈ f.args, arg.Ground := by
  intro arg harg
  unfold ofRow at h
  split at h
  case isTrue =>
    have hlen : (ofTable t).slots.length ≤
        ((t.cellsAt index).map fun c => Arg.literal c.value).length := by
      simpa [Table.cellsAt] using length_ofTable_le t
    unfold Table.row at h
    split at h
    case h_1 cells hrow =>
      split at hrow
      case isTrue =>
        cases hrow
        cases h
        obtain ⟨cell, -, rfl⟩ := List.mem_map.1 (args_bind_subset hlen arg harg)
        exact ⟨rfl, by rintro _ ⟨⟩⟩
      case isFalse => cases hrow
    case h_2 => cases h
  case isFalse =>
    cases h
    cases harg

/-- A scenario that is resolved for a row holds no reference. -/
theorem Document.ground_of_resolveScenario {d : Document} {s : Scenario} {index : Nat}
    {steps : List ResolvedStep} (h : d.resolveScenario s (some index) = .ok steps) :
    ∀ arg ∈ ResolvedStep.allParamsOf steps, arg.Ground := by
  obtain ⟨frame, hframe, hsteps⟩ := bind_eq_ok h
  have hscope : (Scope.root frame).Grounded := by
    unfold rowFrame at hframe
    cases hdata : d.dataTable? with
    | none =>
      rw [hdata] at hframe
      cases hframe
      exact fun _ harg => by cases harg
    | some data =>
      rw [hdata] at hframe
      exact Frame.ground_ofRow hframe
  exact StepTree.ground_of_groundedAll hscope _ hsteps

/-- **What a step tree resolves to holds no reference**, at any depth, in an argument or in a cell
of a table, if the outermost frame holds none. -/
theorem StepTree.ground_of_resolve {frame : Frame} (hf : ∀ arg ∈ frame.args, arg.Ground)
    {t : StepTree} {r : ResolvedStep} (h : t.resolve (.root frame) = .ok r) :
    ∀ arg ∈ r.allParams, arg.Ground := by
  have hscope : (Scope.root frame).Grounded := hf
  exact ground_of_grounded hscope t h

/-! ## A table that is handed on by name -/

/-- A list of guests with one cell. -/
def guestList (cell : Cell) : Table := ((Table.empty 5).addHeaders ["name".toList]).addRow [cell]

/-- A call with a table that refers to a column. The body hands the table on by name, and the body
of the inner call uses it both as an argument and in a table of its own. -/
def invitation : StepTree :=
  .call ⟨5, "invite \x7b\x7d".toList, [], [.table (guestList (.dynamic "guest".toList))], true⟩
    ((Frame.ofNames ["all".toList]).bind [.table (guestList (.dynamic "guest".toList))])
    [.call ⟨2, "greet \x7b\x7d".toList, [], [.dynamic "all".toList], false⟩
      ((Frame.ofNames ["some".toList]).bind [.dynamic "all".toList])
      [.ofStep ⟨2, "write \x7b\x7d \x7b\x7d".toList, [],
        [.dynamic "some".toList, .table (guestList (.dynamic "some".toList))], true⟩]]

/-- The row of the data table. -/
def guestRow : Frame := (Frame.ofNames ["guest".toList]).bind [.literal "ann".toList]

/-- What the calls resolve to. -/
def invited : ResolvedStep :=
  ⟨"invite \x7b\x7d".toList, [.table (guestList (.literal "ann".toList))],
    [⟨"greet \x7b\x7d".toList, [.table (guestList (.literal "ann".toList))],
      [⟨"write \x7b\x7d \x7b\x7d".toList,
        [.table (guestList (.literal "ann".toList)), .table (guestList (.literal []))], []⟩]⟩]⟩

theorem StepTree.ground_of_resolve_invitation :
    Frame.ofRow (((Table.empty 1).addHeaders ["guest".toList]).addRow [.literal "ann".toList]) 0 =
      .ok guestRow ∧
    (∀ arg ∈ guestRow.args, arg.Ground) ∧
    invitation.resolve (.root guestRow) = .ok invited ∧
    ∀ arg ∈ invited.allParams, arg.Ground := by
  have hrow : Frame.ofRow
      (((Table.empty 1).addHeaders ["guest".toList]).addRow [.literal "ann".toList]) 0 =
        .ok guestRow := rfl
  have hresolve : invitation.resolve (.root guestRow) = .ok invited := rfl
  exact ⟨hrow, Frame.ground_ofRow hrow, hresolve,
    ground_of_resolve (Frame.ground_ofRow hrow) hresolve⟩

end ScenarioBook
