import ScenarioBook.Arg

/-!
# Frames and scopes

A frame declares parameter names in order, each bound to an argument or not yet bound. A scope is a
chain of frames: the outermost is a row of the data table, and each concept call puts the frame of
its formal parameters on top. A reference found in one frame names a parameter of the frame below,
so a value handed through several calls is found by walking down the chain.
-/

set_option autoImplicit false

namespace ScenarioBook

/-- Why a parameter has no value. -/
inductive LookupError where
  | unknownParam (name : Text)
  | unbound (name : Text)
  | table (cause : TableError)
deriving DecidableEq, Repr, Inhabited

/-- The wording of a lookup error. -/
def LookupError.message : LookupError → String
  | .unknownParam name => "Accessing an invalid parameter (" ++ name.toStr ++ ")"
  | .unbound name => "Parameter (" ++ name.toStr ++ ") has no bound value"
  | .table cause => cause.message

/-- Parameter names in order of declaration, each with its argument once it is bound. -/
structure Frame where
  slots : List (Text × Option Arg)
deriving DecidableEq, Repr, Inhabited

namespace Frame

/-- The frame without parameters. -/
def empty : Frame := ⟨[]⟩

/-- The declared names in order. -/
def names (f : Frame) : List Text := f.slots.map (·.1)

def declares (f : Frame) (name : Text) : Bool := f.names.contains name

/-- What the slot of a name holds, if the name is declared. -/
def slot? (f : Frame) (name : Text) : Option (Option Arg) :=
  (f.slots.find? (·.1 == name)).map (·.2)

/-- The frame with the slot of a name replaced. -/
def setSlot (f : Frame) (name : Text) (arg : Option Arg) : Frame :=
  ⟨f.slots.map fun s => if s.1 == name then (s.1, arg) else s⟩

/-- Declares a name. A name that is declared keeps its place and loses its argument. -/
def declare (f : Frame) (name : Text) : Frame :=
  if f.declares name then f.setSlot name none else ⟨f.slots ++ [(name, none)]⟩

/-- Binds an argument to a declared name. -/
def assign (f : Frame) (name : Text) (arg : Arg) : Except LookupError Frame :=
  if f.declares name then .ok (f.setSlot name (some arg)) else .error (.unknownParam name)

/-- The argument bound to a name. -/
def get (f : Frame) (name : Text) : Except LookupError Arg :=
  match f.slot? name with
  | some (some arg) => .ok arg
  | some none => .error (.unbound name)
  | none => .error (.unknownParam name)

/-- Puts arguments into slots by position. Slots without an argument stay as they are. -/
def fill : List (Text × Option Arg) → List Arg → List (Text × Option Arg)
  | (name, _) :: slots, arg :: args => (name, some arg) :: fill slots args
  | slots, _ => slots

/-- Binds arguments to the declared names by position. -/
def bind (f : Frame) (args : List Arg) : Frame := ⟨fill f.slots args⟩

/-- Declares names in order, all unbound. -/
def ofNames (names : List Text) : Frame := names.foldl declare empty

/-- The headers of a table, all unbound. -/
def ofTable (t : Table) : Frame := ofNames t.headers

/-- The headers of a table bound to themselves as references. -/
def passthrough (t : Table) : Frame := (ofTable t).bind (t.headers.map .dynamic)

/-- The headers of a table bound to the values of a row. A table without headers gives the empty
frame, whatever the row. -/
def ofRow (t : Table) (index : Nat) : Except LookupError Frame :=
  if t.isInitialized then
    match t.row index with
    | .ok cells => .ok ((ofTable t).bind (cells.map fun c => .literal c.value))
    | .error cause => .error (.table cause)
  else .ok empty

end Frame

/-- A chain of frames. -/
inductive Scope where
  | root (frame : Frame)
  | child (frame : Frame) (parent : Scope)
deriving Repr, Inhabited

namespace Scope

/-- The innermost frame. -/
def frame : Scope → Frame
  | root f => f
  | child f _ => f

/-- The number of frames in the chain. -/
def depth : Scope → Nat
  | root _ => 1
  | child _ p => p.depth + 1

/-- The argument that a name stands for. A reference is followed into the next frame; in the
outermost frame it stands for itself. -/
def resolve : Scope → Text → Except LookupError Arg
  | root f, name => f.get name
  | child f p, name =>
    match f.get name with
    | .ok (.dynamic inner) => p.resolve inner
    | found => found

end Scope

end ScenarioBook
