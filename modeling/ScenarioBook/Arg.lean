import ScenarioBook.Table

/-!
# Arguments

An argument of a step is a quoted literal, a reference to a parameter, an inline table, the
contents of a file, a block of lines, or a table read from a file. What came from a file keeps the
text it was written with, so it can be written back.
-/

set_option autoImplicit false

namespace ScenarioBook

/-- An argument of a step. -/
inductive Arg where
  /-- `"value"` -/
  | literal (value : Text)
  /-- `<name>`, a reference to a parameter -/
  | dynamic (name : Text)
  /-- a table on the lines below the step -/
  | table (table : Table)
  /-- `<file:path>` with the contents of the file -/
  | special (name contents : Text)
  /-- the lines between two fences below the step -/
  | block (contents : Text)
  /-- `<table:path>` with the table of the file -/
  | specialTable (name : Text) (table : Table)
deriving DecidableEq, Repr, Inhabited

namespace Arg

/-- The name under which the argument was written. -/
def name : Arg → Text
  | literal v => v
  | dynamic n => n
  | table _ => ['t', 'a', 'b', 'l', 'e']
  | special n _ => n
  | block _ => []
  | specialTable n _ => n

/-- The value of the argument: for a reference, the name of the parameter. -/
def value : Arg → Text
  | literal v => v
  | dynamic n => n
  | table _ => []
  | special _ c => c
  | block c => c
  | specialTable _ _ => []

/-- The table of the argument, if it has one. -/
def table? : Arg → Option Table
  | table t => some t
  | specialTable _ t => some t
  | _ => none

/-- The argument is a reference to a parameter. -/
def isDynamic : Arg → Bool
  | dynamic _ => true
  | _ => false

/-- The argument is a block of lines. -/
def isBlock : Arg → Bool
  | block _ => true
  | _ => false

/-- The argument with its table replaced. -/
def mapTable (f : Table → Table) : Arg → Arg
  | table t => table (f t)
  | specialTable n t => specialTable n (f t)
  | a => a

/-- The argument with its table replaced by an operation that can fail. -/
def mapTableM {ε : Type} (f : Table → Except ε Table) : Arg → Except ε Arg
  | table t => (f t).map table
  | specialTable n t => (f t).map (specialTable n)
  | a => .ok a

end Arg

end ScenarioBook
