import ScenarioBook.Text.Basic

/-!
# Command line options

Arguments are read from left to right. `--name value`, `--name=value`, `-c value`, `-cvalue` and
`-c=value` give a value to an option; `--` makes all that follows an input. A word that looks like
an option is never taken as a value.

An option that waits for its value is settled when the next argument is understood: it fails then
if no value came, or if the option had a value before. An argument that is not understood fails
before that.
-/

set_option autoImplicit false

namespace ScenarioBook

/-- What the command line asks for. -/
structure Options where
  inputs : List Text := []
  concepts : List Text := []
  config : Option Text := none
  format : Bool := false
  logLevel : Text := "info".toList
deriving DecidableEq, Repr

namespace Options

/-- Why a command line is not run. -/
inductive Fault where
  | missingRequired
  | unknownArgument
  | invalidValue
  | conflict
  | tooManyValues
  | displayHelp
  | displayVersion
deriving DecidableEq, Repr

/-- The options that take a value. -/
inductive Valued where
  | concepts
  | config
  | logLevel
deriving DecidableEq, Repr

/-- The options that take none. -/
inductive Flag where
  | format
  | help
  | version
deriving DecidableEq, Repr

/-- The command line so far: the values given, and the option that waits to be settled with the
value that came for it. -/
structure Reader where
  inputs : List Text := []
  concepts : List Text := []
  config : Option Text := none
  format : Bool := false
  logLevel : Option Text := none
  pending : Option (Valued × Option Text) := none
  onlyInputs : Bool := false

namespace Reader

/-- Gives a value to an option. All but `concepts` can be given once. -/
def give (r : Reader) (value : Text) : Valued → Except Fault Reader
  | .concepts => .ok { r with concepts := r.concepts ++ [value] }
  | .config => if r.config.isSome then .error .conflict else .ok { r with config := some value }
  | .logLevel =>
    if r.logLevel.isSome then .error .conflict else .ok { r with logLevel := some value }

/-- Settles the option that waits. -/
def settle (r : Reader) : Except Fault Reader :=
  match r.pending with
  | none => .ok r
  | some (_, none) => .error .invalidValue
  | some (option, some value) => { r with pending := none }.give value option

/-- An option without value. -/
def flag (r : Reader) : Flag → Except Fault Reader
  | .help => do
    let _ ← r.settle
    .error .displayHelp
  | .version => do
    let _ ← r.settle
    .error .displayVersion
  | .format => do
    let r ← r.settle
    if r.format then .error .conflict else .ok { r with format := true }

/-- An option with the value written to it, if there is one. -/
def option (r : Reader) (option : Valued) (attached : Option Text) : Except Fault Reader := do
  let r ← r.settle
  match attached with
  | some value => r.give value option
  | none => return { r with pending := some (option, none) }

/-- An argument that starts with two dashes. -/
def long (r : Reader) (body : Text) : Except Fault Reader :=
  let (name, attached) := match body.cutAt '=' with
    | some (name, value) => (name, some value)
    | none => (body, none)
  let plain (f : Flag) : Except Fault Reader :=
    if attached.isSome then .error .tooManyValues else r.flag f
  if name = "concepts".toList then r.option .concepts attached
  else if name = "config".toList then r.option .config attached
  else if name = "log-level".toList then r.option .logLevel attached
  else if name = "format".toList then plain .format
  else if name = "help".toList then plain .help
  else if name = "version".toList then plain .version
  else .error .unknownArgument

/-- The letters of an argument that starts with one dash. -/
def short (r : Reader) : Text → Except Fault Reader
  | [] => .ok r
  | 'c' :: rest =>
    match rest with
    | [] => r.option .concepts none
    | '=' :: value => r.option .concepts (some value)
    | value => r.option .concepts (some value)
  | 'h' :: _ => r.flag .help
  | 'V' :: _ => r.flag .version
  | _ :: _ => .error .unknownArgument

/-- An argument that is no option: the value of the option that waits for one, or an input. -/
def plain (r : Reader) (arg : Text) : Except Fault Reader :=
  match r.pending, r.onlyInputs with
  | some (option, none), false => .ok { r with pending := some (option, some arg) }
  | _, _ => do
    let r ← r.settle
    return { r with inputs := r.inputs ++ [arg] }

/-- Reads one argument. -/
def read (r : Reader) (arg : Text) : Except Fault Reader :=
  if r.onlyInputs then r.plain arg
  else
    match arg with
    | ['-', '-'] => .ok { r with onlyInputs := true }
    | '-' :: '-' :: body => r.long body
    | '-' :: c :: cs => r.short (c :: cs)
    | _ => r.plain arg

/-- The options once all arguments are read. There must be an input. -/
def finish (r : Reader) : Except Fault Options := do
  let r ← r.settle
  if r.inputs.isEmpty then .error .missingRequired
  else
    return { inputs := r.inputs
             concepts := r.concepts
             config := r.config
             format := r.format
             logLevel := r.logLevel.getD "info".toList }

end Reader

/-- The options of a command line. -/
def parse (argv : List Text) : Except Fault Options := do
  let r ← argv.foldlM Reader.read {}
  r.finish

end Options

end ScenarioBook
