import ScenarioBook.Document
import ScenarioBook.Token.Lexer
import ScenarioBook.Token.Reading
import ScenarioBook.Text.Lower

/-!
# From tokens to a document

Tokens are taken one at a time. Where a token goes depends on the place reached so far: the section
that is open, whether a step of it can still take a table, and whether a table can still take rows.
A token that has no place is kept as a comment, so that the document can be written back in full.

Problems are collected. The checks that need the whole document are made only when no error was
found before.
-/

set_option autoImplicit false

namespace ScenarioBook

/-- The part of the document that is open. -/
inductive Section where
  /-- before the heading of the document -/
  | preamble
  /-- after the heading, before scenarios and teardown -/
  | context
  | scenario
  | tearDown
deriving DecidableEq, Repr

/-- Where the next token goes. In the teardown its last step takes tables whether or not
`stepOpen` holds. -/
structure Place where
  current : Section
  stepOpen : Bool := false
  tableOpen : Bool := false
deriving DecidableEq, Repr

/-- The document so far. -/
structure Builder where
  document : Document
  place : Place
  diagnostics : List Diagnostic

namespace Builder

/-- Before the first token. -/
def start (fileName : Text) : Builder := ⟨.empty fileName, ⟨.preamble, false, false⟩, []⟩

/-- The builder with more diagnostics. -/
def report (b : Builder) (found : List Diagnostic) : Builder :=
  { b with diagnostics := b.diagnostics ++ found }

/-- The builder with another document. -/
def edit (b : Builder) (f : Document → Document) : Builder := { b with document := f b.document }

/-- The builder at the start of a section. -/
def enter (b : Builder) (s : Section) : Builder := { b with place := ⟨s, false, false⟩ }

/-- Closes the open step and the open table. -/
def close (b : Builder) : Builder := b.enter b.place.current

/-- The names that steps can refer to: the headers of the data table so far. -/
def frame (b : Builder) : Frame :=
  match b.document.dataTable? with
  | some data => .ofTable data.table
  | none => .empty

/-- Adds an item to the open scenario, or else to the document. -/
def add (b : Builder) (i : Item) : Builder :=
  b.edit fun d => if b.place.current = .scenario then d.addToScenario i else d.addItem i

/-- Keeps a token as a comment. -/
def keep (b : Builder) (t : Token) : Builder := b.add (.comment ⟨t.asComment, t.lineNo⟩)

/-- Keeps a token as a comment, which closes the open step and table. -/
def comment (b : Builder) (t : Token) : Builder := (b.keep t).close

/-- Warns about a token and keeps it as a comment. -/
def ignore (b : Builder) (t : Token) (p : Problem) : Builder := (b.report [t.problem p]).keep t

/-! ## One token -/

/-- The heading of the document. -/
def specHeading (b : Builder) (t : Token) (title : Text) : Builder :=
  if b.document.heading.isSome then b.report [t.problem .secondHeading]
  else
    (b.edit fun d => { d with heading := some ⟨title, t.lineNo, .spec⟩ }).enter .context

/-- The heading of a scenario with this title up to case. -/
def namesake? (b : Builder) (title : Text) : Option Text :=
  let lowered := title.lower
  (b.document.scenarios.map (·.heading.title)).find? fun existing => existing.lower == lowered

def scenarioHeading (b : Builder) (t : Token) (title : Text) : Builder :=
  if b.document.heading.isNone then b.report [t.problem .scenarioFirst]
  else
    match b.namesake? title with
    | some existing => b.report [t.problem (.duplicateScenario existing)]
    | none =>
      (b.edit (·.addItem (.scenario ⟨title, t.lineNo, .scenario⟩ []))).enter .scenario

/-- A step. Before the heading of the document it is left out. -/
def step (b : Builder) (files : FileSource) (t : Token) (value : Text) (args : List RawArg)
    (block : Option Text) : Builder :=
  if b.place.current = .preamble then b
  else
    let (step, found) := t.readStep b.frame files value args block
    let b := (b.report found).add (.step (.ofStep step))
    { b with place := ⟨b.place.current, b.place.current != .tearDown, false⟩ }

/-- Changes the step that takes tables at this place. -/
def mapOpenStep (b : Builder) (f : Step → Step) : Builder :=
  b.edit fun d =>
    match b.place.current with
    | .scenario => d.mapLatestStep (·.mapStep f)
    | .tearDown => d.mapLatestTearDownStep (·.mapStep f)
    | _ => d.mapLatestContext (·.mapStep f)

/-- The first line of a table. -/
def tableHeader (b : Builder) (t : Token) (cells : List Text) : Builder :=
  let table := (Table.empty t.lineNo).addHeaders cells
  let opened (b : Builder) : Builder := { b with place := { b.place with tableOpen := true } }
  match b.place.current with
  | .preamble => b.comment t
  | .scenario =>
    if b.place.stepOpen then opened (b.mapOpenStep (·.addInlineTable table))
    else b.ignore t .strayTable
  | .tearDown =>
    if b.document.latestTearDownStep?.isSome then
      opened (b.mapOpenStep (·.addInlineTable table))
    else b.comment t
  | .context =>
    if b.place.stepOpen then opened (b.mapOpenStep (·.addInlineTable table))
    else if b.document.dataTable?.isNone then
      opened (b.edit (·.addItem (.dataTable ⟨table, none⟩)))
    else b.ignore t .repeatedDataTable

/-- A further line of a table. -/
def tableRow (b : Builder) (files : FileSource) (t : Token) (cells : List Text) : Builder :=
  if !b.place.tableOpen then b.comment t
  else if Row.isSeparator cells then b
  else if b.place.stepOpen || b.place.current == .tearDown then
    let (cells, found) := t.readRow b.frame files cells
    (b.report found).mapOpenStep (·.addInlineRow cells)
  else
    let (cells, found) := t.readDataRow files cells
    (b.report found).edit (·.mapDataTable (·.addRow cells))

/-- A line of tags. A scenario has one, and so has the document. -/
def tags (b : Builder) (t : Token) (values : List Text) : Builder :=
  let b :=
    if b.place.current = .scenario then
      if (b.document.latestScenario?.bind Scenario.tags?).isSome then
        b.ignore t .repeatedScenarioTags
      else b.add (.tags ⟨values, t.lineNo⟩)
    else if b.document.tags?.isSome then b.ignore t .repeatedTags
    else b.add (.tags ⟨values, t.lineNo⟩)
  b.close

/-- A reference to a data table. -/
def dataTable (b : Builder) (files : FileSource) (t : Token) (path : Text) : Builder :=
  match Reference.dataTable files path with
  | .error fault => b.report [t.problem (.reference fault)]
  | .ok table =>
    if b.place.current = .preamble ∨ b.place.current = .scenario then
      b.ignore t .strayDataTable
    else if b.document.dataTable?.isSome then b.ignore t .repeatedDataTable
    else
      b.edit (·.addItem (.dataTable ⟨{ table with lineNo := t.lineNo }, some path⟩))

/-- The marker that opens the teardown, once the document has a heading. -/
def tearDown (b : Builder) (t : Token) (marker : Text) : Builder :=
  let b := b.edit (·.addItem (.tearDown ⟨marker, t.lineNo⟩))
  b.enter (if b.place.current = .preamble then .preamble else .tearDown)

/-- Takes one token. -/
def accept (files : FileSource) (b : Builder) (t : Token) : Builder :=
  match t.content with
  | .heading .spec title => b.specHeading t title
  | .heading .scenario title => b.scenarioHeading t title
  | .step value args block => b.step files t value args block
  | .comment _ => b.comment t
  | .tableHeader _ cells => b.tableHeader t cells
  | .tableRow _ cells => b.tableRow files t cells
  | .tags _ values => b.tags t values
  | .dataTable path => b.dataTable files t path
  | .tearDown marker => b.tearDown t marker

end Builder

/-! ## The whole document -/

namespace Document

/-- What is wrong with the document as a whole, with the line it is about. -/
def flaws (d : Document) : List (Problem × Nat) :=
  if d.items.isEmpty then [(.emptyDocument, 1)]
  else
    match d.heading with
    | none => [(.noHeading, 1)]
    | some heading =>
      if heading.title.trim.isEmpty then [(.blankHeading, heading.lineNo)]
      else
        let tables := (d.dataTable?.toList.map (·.table)).filter fun t =>
          t.isInitialized && t.rowCount == 0
        let scenarios := d.scenarios.filter (·.steps.isEmpty)
        tables.map (fun t => (.emptyDataTable, t.lineNo)) ++
          scenarios.map fun s => (.emptyScenario, s.heading.lineNo)

/-- The diagnostic of a flaw: it points to the token on that line, if there is one. -/
def flawDiagnostic (tokens : List Token) (flaw : Problem × Nat) : Diagnostic :=
  match tokens.find? (·.lineNo == flaw.2) with
  | some t => t.problem flaw.1
  | none => flaw.1.diagnostic.onLine flaw.2 []

/-- The document of a list of tokens, with its steps not yet expanded. -/
def ofTokens (fileName : Text) (files : FileSource) (tokens : List Token) :
    Except Rejection (Parsed Document) :=
  let b := tokens.foldl (Builder.accept files) (.start fileName)
  let found :=
    if b.diagnostics.any (·.isError) then b.diagnostics
    else b.diagnostics ++ b.document.flaws.map (flawDiagnostic tokens)
  Parsed.settle b.document found

end Document

end ScenarioBook
