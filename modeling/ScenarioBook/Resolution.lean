import ScenarioBook.Document

/-!
# Resolution

Resolving a step replaces its references by the arguments they stand for in a scope. A concept call
puts the frame of its parameters on the scope of its body; tables handed to the concept have their
cells resolved in the scope of the call, before the body sees them.

A scenario is resolved for a row of the data table, or without a row, in which case every column
stands for itself and references stay.
-/

set_option autoImplicit false

namespace ScenarioBook

/-- A step with its arguments resolved, and the resolved body of a concept call. -/
structure ResolvedStep where
  text : Text
  params : List Arg
  children : List ResolvedStep
deriving Repr, Inhabited

/-- The step is a concept call with a body. -/
def ResolvedStep.isCall (s : ResolvedStep) : Bool := !s.children.isEmpty

namespace Scope

/-- A cell in a scope: a reference becomes the value it stands for, or the reference that is left
of it. -/
def resolveCell (scope : Scope) : Cell → Except LookupError Cell
  | .dynamic name =>
    match scope.resolve name with
    | .error e => .error e
    | .ok (.dynamic inner) => .ok (.dynamic inner)
    | .ok arg => .ok (.literal arg.value)
  | cell => .ok cell

/-- An argument in a scope. -/
def resolveArg (scope : Scope) : Arg → Except LookupError Arg
  | .dynamic name => scope.resolve name
  | arg => arg.mapTableM (·.mapCellsM scope.resolveCell)

/-- A slot of a call's frame in the scope of the call: tables are resolved, all else stays. -/
def resolveSlot (scope : Scope) (slot : Text × Option Arg) :
    Except LookupError (Text × Option Arg) :=
  match slot.2 with
  | some arg =>
    if arg.table?.isSome then (scope.resolveArg arg).map fun a => (slot.1, some a) else .ok slot
  | none => .ok slot

/-- A call's frame in the scope of the call. -/
def resolveFrame (scope : Scope) (frame : Frame) : Except LookupError Frame :=
  (frame.slots.mapM scope.resolveSlot).map Frame.mk

end Scope

namespace StepTree

mutual

/-- Resolves a step and, for a concept call, its whole body. -/
def resolve (scope : Scope) : StepTree → Except LookupError ResolvedStep
  | .plain s _ => do
    let params ← s.args.mapM scope.resolveArg
    return ⟨s.value, params, []⟩
  | .call s frame body => do
    let params ← s.args.mapM scope.resolveArg
    let inner ← scope.resolveFrame frame
    let children ← resolveAll (.child inner scope) body
    return ⟨s.value, params, children⟩

/-- Resolves steps in order, up to the first failure. -/
def resolveAll (scope : Scope) : List StepTree → Except LookupError (List ResolvedStep)
  | [] => .ok []
  | t :: ts => do
    let first ← t.resolve scope
    let others ← resolveAll scope ts
    return first :: others

end

end StepTree

namespace Document

/-- The frame of a row of the data table, or of no row. -/
def rowFrame (d : Document) (row : Option Nat) : Except LookupError Frame :=
  match d.dataTable?, row with
  | some data, some index => Frame.ofRow data.table index
  | some data, none => .ok (.passthrough data.table)
  | none, _ => .ok .empty

/-- The steps that run for a scenario: contexts, its own, teardown. -/
def scheduled (d : Document) (s : Scenario) : List StepTree :=
  d.contexts ++ s.steps ++ d.tearDownSteps

/-- Resolves all steps that run for a scenario. -/
def resolveScenario (d : Document) (s : Scenario) (row : Option Nat) :
    Except LookupError (List ResolvedStep) := do
  let frame ← d.rowFrame row
  StepTree.resolveAll (.root frame) (d.scheduled s)

end Document

end ScenarioBook
