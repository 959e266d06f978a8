import ScenarioBook.Path

/-!
# Settings

Which file extensions hold specifications and concepts, and how far tables are indented. Settings
are read from a tree of values, as a configuration file gives it: the sections `project` and
`format` with their fields. What is absent has its default, what is unknown is ignored, and a value
of the wrong type is refused. A section can also be given as the list of its fields in order. A
number that is too large to be read is refused even where it is ignored.
-/

set_option autoImplicit false

namespace ScenarioBook

/-- A tree of configuration values. Kinds of values that no setting has are not told apart. -/
inductive ConfigValue where
  | text (value : Text)
  | number (value : Int)
  | list (values : List ConfigValue)
  | table (entries : List (Text × ConfigValue))
  /-- a date or a time: a group of fields of which none is a setting -/
  | moment
  /-- a number that cannot be read -/
  | tooLarge
  /-- any other value -/
  | other
deriving Repr, Inhabited

/-- The settings of a project. -/
structure Settings where
  specExtensions : List Text := ["spec".toList, "md".toList]
  conceptExtensions : List Text := ["cpt".toList]
  tableIndent : Nat := 5
deriving DecidableEq, Repr, Inhabited

/-- What becomes of the values of a list that is longer than the fields of its section. -/
inductive Surplus where
  | refused
  | ignored
deriving DecidableEq, Repr

namespace ConfigValue

mutual

/-- No number in the value is too large. -/
def isReadable : ConfigValue → Bool
  | tooLarge => false
  | list values => allReadable values
  | table entries => entriesReadable entries
  | _ => true

/-- No number in the values is too large. -/
def allReadable : List ConfigValue → Bool
  | [] => true
  | v :: vs => v.isReadable && allReadable vs

/-- No number in the entries is too large. -/
def entriesReadable : List (Text × ConfigValue) → Bool
  | [] => true
  | (_, v) :: es => v.isReadable && entriesReadable es

end

/-- The fields of a section by name: the value of each, or nothing where it is absent. A list gives
the fields in order. -/
def fields? (surplus : Surplus) (names : List Text) :
    ConfigValue → Option (List (Option ConfigValue))
  | table entries =>
    if entriesReadable (entries.filter fun e => !names.contains e.1) then
      some (names.map fun name => (entries.find? (·.1 == name)).map (·.2))
    else none
  | list values =>
    if surplus = .ignored ∨ values.length ≤ names.length then
      some (names.zipIdx.map fun (_, i) => values[i]?)
    else none
  | moment => some (names.map fun _ => none)
  | _ => none

def text? : ConfigValue → Option Text
  | text t => some t
  | _ => none

def texts? : ConfigValue → Option (List Text)
  | list values => values.mapM text?
  | _ => none

/-- A number that is not negative and fits into 64 bits. -/
def size? : ConfigValue → Option Nat
  | number n => if 0 ≤ n ∧ n ≤ 18446744073709551615 then some n.toNat else none
  | _ => none

/-- A field, or its default if it is absent. -/
def orDefault {α : Type} (read : ConfigValue → Option α) (default : α) :
    Option ConfigValue → Option α
  | none => some default
  | some v => read v

end ConfigValue

namespace Settings

/-- The section `project`. -/
def readProject (surplus : Surplus) (s : Settings) (v : ConfigValue) : Option Settings := do
  match ← v.fields? surplus ["spec_extensions".toList, "concept_extensions".toList] with
  | [spec, concept] =>
    let specExtensions ← ConfigValue.orDefault ConfigValue.texts? s.specExtensions spec
    let conceptExtensions ← ConfigValue.orDefault ConfigValue.texts? s.conceptExtensions concept
    return { s with specExtensions := specExtensions, conceptExtensions := conceptExtensions }
  | _ => none

/-- The section `format`. -/
def readFormat (surplus : Surplus) (s : Settings) (v : ConfigValue) : Option Settings := do
  match ← v.fields? surplus ["table_indent".toList] with
  | [indent] =>
    let tableIndent ← ConfigValue.orDefault ConfigValue.size? s.tableIndent indent
    return { s with tableIndent := tableIndent }
  | _ => none

/-- The settings that a tree of values gives. -/
def ofValue? (surplus : Surplus) (v : ConfigValue) : Option Settings := do
  match ← v.fields? surplus ["project".toList, "format".toList] with
  | [project, format] =>
    let s ← ConfigValue.orDefault (readProject surplus {}) {} project
    ConfigValue.orDefault (readFormat surplus s) s format
  | _ => none

/-- The path has an extension of specifications. -/
def isSpecFile (s : Settings) (path : Text) : Bool := Path.hasExtension path s.specExtensions

/-- The path has an extension of concept files. -/
def isConceptFile (s : Settings) (path : Text) : Bool :=
  Path.hasExtension path s.conceptExtensions

end Settings

end ScenarioBook
