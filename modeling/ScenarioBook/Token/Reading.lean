import ScenarioBook.Token
import ScenarioBook.Frame

/-!
# What steps and rows stand for

A step token becomes a step once its arguments are known: references must name a declared
parameter, special arguments are read from files. A row token becomes cells in the same way. Both
come with the diagnostics found on the way; a faulty argument or cell is kept as a reference.
-/

set_option autoImplicit false

namespace ScenarioBook.Token

/-- The argument that a raw argument stands for. -/
def readArg (t : Token) (frame : Frame) (files : FileSource) (raw : RawArg) :
    Arg × List Diagnostic :=
  match raw.kind with
  | .literal => (.literal raw.text, [])
  | .dynamic =>
    (.dynamic raw.text,
     if frame.declares raw.text then [] else [t.problem (.unresolvedParam raw.text)])
  | .special =>
    match Reference.resolve files raw.text with
    | .ok arg => (arg, [])
    | .error fault => (.dynamic raw.text, [t.problem (.reference fault)])

/-- The step of a step token. A block below it is an argument of its own, and cannot stand beside
others. -/
def readStep (t : Token) (frame : Frame) (files : FileSource) (value : Text) (raws : List RawArg)
    (block : Option Text) : Step × List Diagnostic :=
  let args := raws.map (t.readArg frame files)
  let found := args.flatMap (·.2)
  let step : Step := ⟨t.lineNo, value, t.lineText, args.map (·.1), false⟩
  match block with
  | none => (step, found)
  | some contents =>
    if raws.isEmpty then (step.pushTrailing (.block contents), found)
    else (step, found ++ [t.problem .mixedBlock])

/-- The trimmed text between the angle brackets of a cell. -/
def bracketed? (cell : Text) : Option Text :=
  match ['<'].isPrefixOf? cell with
  | none => none
  | some rest => (['>'].isSuffixOf? rest).map Text.trim

/-- A cell that refers to a file keeps its text; the file must exist. -/
def readFileCell? (t : Token) (files : FileSource) (param : Text) :
    Option (Cell × List Diagnostic) :=
  if param.startsWith "file:".toList then
    match Reference.resolve files param with
    | .ok _ => some (.special param, [])
    | .error fault => some (.special param, [t.problem (.reference fault)])
  else none

/-- A cell of an inline table: in angle brackets it refers to a file or to a parameter. -/
def readCell (t : Token) (frame : Frame) (files : FileSource) (cell : Text) :
    Cell × List Diagnostic :=
  match bracketed? cell with
  | none => (.literal cell, [])
  | some name =>
    match t.readFileCell? files name with
    | some found => found
    | none =>
      (.dynamic name, if frame.declares name then [] else [t.problem (.unresolvedCell name)])

/-- A cell of the data table: only references to files are special. -/
def readDataCell (t : Token) (files : FileSource) (cell : Text) : Cell × List Diagnostic :=
  match (bracketed? cell).bind (t.readFileCell? files) with
  | some found => found
  | none => (.literal cell, [])

/-- The cells of a row of an inline table. -/
def readRow (t : Token) (frame : Frame) (files : FileSource) (cells : List Text) :
    List Cell × List Diagnostic :=
  let read := cells.map (t.readCell frame files)
  (read.map (·.1), read.flatMap (·.2))

/-- The cells of a row of the data table. -/
def readDataRow (t : Token) (files : FileSource) (cells : List Text) :
    List Cell × List Diagnostic :=
  let read := cells.map (t.readDataCell files)
  (read.map (·.1), read.flatMap (·.2))

/-- The paths of the files that a token refers to. -/
def references (t : Token) : List Text :=
  match t.content with
  | .step _ args _ =>
    (args.filter (·.kind == .special)).map fun raw => (Reference.parts raw.text).2
  | .tableRow _ cells => (cells.filterMap bracketed?).map fun name => (Reference.parts name).2
  | .dataTable path => [path]
  | _ => []

end ScenarioBook.Token
