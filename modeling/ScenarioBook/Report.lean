import ScenarioBook.Compiler

/-!
# Reports

A failure is shown as a list of reports. A rejected source gives one report for each diagnostic,
with labels as offset and length; any other failure gives one report without place.
-/

set_option autoImplicit false

namespace ScenarioBook

/-- A label of a report: where it starts, how long it is, what it says, whether it marks the place
of the problem. -/
structure ReportLabel where
  offset : Nat
  length : Nat
  text : String
  primary : Bool
deriving DecidableEq, Repr

/-- One thing to show. -/
structure Report where
  message : String
  code : Option String
  severity : Severity
  help : Option String := none
  labels : List ReportLabel := []
  hasSource : Bool := false
deriving DecidableEq, Repr

namespace Report

def ofDiagnostic (d : Diagnostic) : Report :=
  { message := d.message
    code := d.code.map (·.name)
    severity := d.severity
    help := d.help
    labels := d.labels.map fun l => ⟨l.span.start, l.span.length, l.message, l.primary⟩
    hasSource := true }

def ofFailure (f : Failure) : List Report :=
  match f with
  | .rejected rejection _ _ => rejection.diagnostics.map ofDiagnostic
  | .io _ => [{ message := f.message, code := some "speclang::io", severity := .error }]
  | .config _ => [{ message := f.message, code := some "speclang::config", severity := .error }]

end Report

end ScenarioBook
