import ScenarioBook.Span
import ScenarioBook.Text.Basic

/-!
# Diagnostics

A diagnostic is one error or warning: a message, often a code, the line it is about, labels that
point into the source and a hint. A file is rejected with all the diagnostics found in it, if one
of them is an error; otherwise the diagnostics are warnings that accompany the result.
-/

set_option autoImplicit false

namespace ScenarioBook

/-- An error rejects the file, a warning does not. -/
inductive Severity where
  | error
  | warning
deriving DecidableEq, Repr

/-- The word that opens a diagnostic. -/
def Severity.word : Severity → String
  | .error => "error"
  | .warning => "warning"

/-- The codes of all problems. Codes below 100 are about single lines, those from 100 about the
document, from 200 about parameters, from 300 about concepts. -/
inductive Code where
  | e001 | e002 | e003 | e004 | e005 | e006 | e007 | e008 | e009 | e010 | e011
  | e100 | e101 | e102 | e103 | e104 | e105 | e106 | e107 | e108 | e109 | e110 | e111 | e112
  | e200 | e201 | e202 | e203 | e204
  | e300 | e301 | e302 | e303 | e304 | e305 | e306
deriving DecidableEq, Repr

namespace Code

/-- The code as it is shown. -/
def name : Code → String
  | e001 => "E001" | e002 => "E002" | e003 => "E003" | e004 => "E004" | e005 => "E005"
  | e006 => "E006" | e007 => "E007" | e008 => "E008" | e009 => "E009" | e010 => "E010"
  | e011 => "E011"
  | e100 => "E100" | e101 => "E101" | e102 => "E102" | e103 => "E103" | e104 => "E104"
  | e105 => "E105" | e106 => "E106" | e107 => "E107" | e108 => "E108" | e109 => "E109"
  | e110 => "E110" | e111 => "E111" | e112 => "E112"
  | e200 => "E200" | e201 => "E201" | e202 => "E202" | e203 => "E203" | e204 => "E204"
  | e300 => "E300" | e301 => "E301" | e302 => "E302" | e303 => "E303" | e304 => "E304"
  | e305 => "E305" | e306 => "E306"

/-- A few words on what the code stands for, used as the text of labels. -/
def description : Code → String
  | e001 => "string not terminated"
  | e002 => "dynamic parameter not terminated"
  | e003 => "reserved character"
  | e004 => "blank step"
  | e005 => "typed placeholder in step text"
  | e006 => "blank table header"
  | e007 => "repeated table header"
  | e008 => "multiline argument not terminated"
  | e009 => "blank scenario heading"
  | e010 => "table location not specified"
  | e011 => "short teardown marker"
  | e100 => "multiple spec headings"
  | e101 => "scenario before spec heading"
  | e102 => "duplicate scenario"
  | e103 => "empty specification"
  | e104 => "spec heading not found"
  | e105 => "blank spec heading"
  | e106 => "empty data table"
  | e107 => "scenario without steps"
  | e108 => "duplicate tags"
  | e109 => "multiple data tables"
  | e110 => "table without step"
  | e111 => "data table outside specification"
  | e112 => "mixed multiline argument"
  | e200 => "unresolved dynamic parameter"
  | e201 => "unresolved dynamic table cell"
  | e202 => "unknown special resolver"
  | e203 => "missing file"
  | e204 => "invalid table file"
  | e300 => "invalid concept heading"
  | e301 => "step outside concept"
  | e302 => "concept without steps"
  | e303 => "concept calls itself"
  | e304 => "table without step"
  | e305 => "duplicate concept"
  | e306 => "circular concept reference"

/-- All codes in order. -/
def all : List Code :=
  [e001, e002, e003, e004, e005, e006, e007, e008, e009, e010, e011,
   e100, e101, e102, e103, e104, e105, e106, e107, e108, e109, e110, e111, e112,
   e200, e201, e202, e203, e204, e300, e301, e302, e303, e304, e305, e306]

def ofName? (s : String) : Option Code := all.find? (·.name == s)

end Code

/-- A remark on a span of the source. The primary label marks the place of the problem. -/
structure Label where
  span : Span
  message : String
  primary : Bool
deriving DecidableEq, Repr

/-- One error or warning. -/
structure Diagnostic where
  severity : Severity
  code : Option Code
  message : String
  lineNo : Option Nat := none
  lineText : Option Text := none
  labels : List Label := []
  help : Option String := none
deriving DecidableEq, Repr

namespace Diagnostic

def isError (d : Diagnostic) : Bool := d.severity == .error

/-- The diagnostic with the line it is about. -/
def onLine (d : Diagnostic) (lineNo : Nat) (lineText : Text) : Diagnostic :=
  { d with lineNo := some lineNo, lineText := some lineText }

/-- The diagnostic with one more primary label. -/
def withLabel (d : Diagnostic) (span : Span) (message : String) : Diagnostic :=
  { d with labels := d.labels ++ [⟨span, message, true⟩] }

/-- One line of text: `error[E104]: Spec heading not found (line 1)`. -/
def summary (d : Diagnostic) : String :=
  let code := match d.code with
    | some c => "[" ++ c.name ++ "]"
    | none => ""
  let line := match d.lineNo with
    | some n => " (line " ++ toString n ++ ")"
    | none => ""
  d.severity.word ++ code ++ ": " ++ d.message ++ line

end Diagnostic

/-- The diagnostics with which a file was rejected. -/
structure Rejection where
  diagnostics : List Diagnostic
deriving DecidableEq, Repr

namespace Rejection

/-- The diagnostics that are errors. -/
def errors (r : Rejection) : List Diagnostic := r.diagnostics.filter (·.isError)

/-- The first error, or else the first diagnostic, and how many more there are. -/
def summary (r : Rejection) : String :=
  match r.errors.head?.or r.diagnostics.head? with
  | none => ""
  | some d =>
    let more := r.diagnostics.length - 1
    d.summary ++ if more = 0 then "" else " (+" ++ toString more ++ " more)"

end Rejection

/-- A result with the warnings found on the way. -/
structure Parsed (α : Type) where
  document : α
  warnings : List Diagnostic

/-- Accepts the result unless an error was found. -/
def Parsed.settle {α : Type} (document : α) (found : List Diagnostic) :
    Except Rejection (Parsed α) :=
  if found.any (·.isError) then .error ⟨found⟩ else .ok ⟨document, found⟩

/-! ## What a check of a result tells -/

section
variable {ε α β : Type} {x : Except ε α}

/-- What passes a check was accepted. -/
theorem exists_ok_of_any {check : α → Bool} (h : x.toOption.any check = true) :
    ∃ a, x = .ok a ∧ check a = true := by
  cases x with
  | error e => cases h
  | ok a => exact ⟨a, rfl, h⟩

/-- What has a value was accepted. -/
theorem exists_ok_of_map {f : α → β} {b : β} (h : x.toOption.map f = some b) :
    ∃ a, x = .ok a ∧ f a = b := by
  cases x with
  | error e => cases h
  | ok a => exact ⟨a, rfl, Option.some.inj h⟩

end

end ScenarioBook
