import ScenarioBook.Settings

/-!
# Tables under construction

How a table came to be decides who may add to it. A header can open a table that headers below it
only implied. An entry with a dotted key goes through tables that headers implied or dotted keys
made, and through the last table of an array, but it ends in a table of the first two kinds; the
table it ends in then counts as made by a dotted key. A key can be used once.
-/

set_option autoImplicit false

namespace ScenarioBook.Toml

/-- How a table came to be. -/
inductive Origin where
  /-- a header below it was opened -/
  | implied
  /-- its own header was opened -/
  | header
  /-- a dotted key led to it -/
  | dotted
deriving DecidableEq, Repr

/-- A value, or a table or an array of tables that can still grow. -/
inductive Node where
  | value (value : ConfigValue)
  | table (origin : Origin) (entries : List (Text × Node))
  | array (done : List ConfigValue) (last : List (Text × Node))
deriving Inhabited

/-- The entries of a table. -/
abbrev Entries := List (Text × Node)

/-- The entry with a name. -/
def find? (es : Entries) (name : Text) : Option Node := (es.find? (·.1 == name)).map (·.2)

/-- The entries with one of them set. -/
def set (es : Entries) (name : Text) (node : Node) : Entries :=
  if es.any (·.1 == name) then es.map fun e => if e.1 == name then (name, node) else e
  else es ++ [(name, node)]

mutual

/-- The value that a node stands for. -/
def Node.toValue : Node → ConfigValue
  | .value v => v
  | .table _ es => .table (toValues es)
  | .array done last => .list (done ++ [.table (toValues last)])

/-- The values of entries. -/
def toValues : List (Text × Node) → List (Text × ConfigValue)
  | [] => []
  | (name, node) :: es => (name, node.toValue) :: toValues es

end

/-- Changes the table at a place, through tables and the last tables of arrays. -/
def within (f : Entries → Option Entries) : List Text → Entries → Option Entries
  | [], es => f es
  | name :: names, es =>
    match find? es name with
    | none => (within f names []).map fun sub => set es name (.table .implied sub)
    | some (.table o sub) => (within f names sub).map fun sub => set es name (.table o sub)
    | some (.array done last) =>
      (within f names last).map fun last => set es name (.array done last)
    | some (.value _) => none

def openTable (name : Text) (es : Entries) : Option Entries :=
  match find? es name with
  | none => some (set es name (.table .header []))
  | some (.table .implied sub) => some (set es name (.table .header sub))
  | some _ => none

/-- Opens one more table of the array with a name. -/
def openElement (name : Text) (es : Entries) : Option Entries :=
  match find? es name with
  | none => some (set es name (.array [] []))
  | some (.array done last) =>
    some (set es name (.array (done ++ [.table (toValues last)]) []))
  | some _ => none

/-- Puts a value at the end of a dotted key. -/
def insert (v : ConfigValue) : List Text → Entries → Option Entries
  | [], _ => none
  | [name], es => if (find? es name).isSome then none else some (set es name (.value v))
  | name :: names, es =>
    let isLast := names.length == 1
    match find? es name with
    | none => (insert v names []).map fun sub => set es name (.table .dotted sub)
    | some (.table .header _) => none
    | some (.table o sub) =>
      (insert v names sub).map fun sub => set es name (.table (if isLast then .dotted else o) sub)
    | some (.array done last) =>
      if isLast then none
      else (insert v names last).map fun last => set es name (.array done last)
    | some (.value _) => none

end ScenarioBook.Toml
