import ScenarioBook.Concept
import ScenarioBook.Token.Lexer
import ScenarioBook.Token.Reading

/-!
# From tokens to concepts

Every heading, of either level, opens a concept. The steps below it are its body and may refer only
to the parameters of its heading. Tables belong to the step above them. All else is a comment:
before the first concept these comments are kept with it.
-/

set_option autoImplicit false

namespace ScenarioBook

/-- What the next table line belongs to. -/
inductive Focus where
  | nothing
  /-- a step, which can take a table -/
  | step
  /-- the table of a step, which can take rows -/
  | table
deriving DecidableEq, Repr

/-- The concepts so far, the open one with the token of its heading, and the comments that wait
for the next heading. -/
structure ConceptBuilder where
  fileName : Text
  finished : List Concept
  current : Option (Concept × Token)
  preComments : List Comment
  focus : Focus
  diagnostics : List Diagnostic

namespace ConceptBuilder

/-- Before the first token. -/
def start (fileName : Text) : ConceptBuilder := ⟨fileName, [], none, [], .nothing, []⟩

/-- The builder with more diagnostics. -/
def report (b : ConceptBuilder) (found : List Diagnostic) : ConceptBuilder :=
  { b with diagnostics := b.diagnostics ++ found }

/-- Changes the open concept. -/
def mapCurrent (b : ConceptBuilder) (f : Concept → Concept) : ConceptBuilder :=
  { b with current := b.current.map fun (c, t) => (f c, t) }

/-- Closes the open concept. It must have a step. -/
def finish (b : ConceptBuilder) : ConceptBuilder :=
  match b.current with
  | none => b
  | some (c, t) =>
    let b := { b with current := none }
    if c.steps.isEmpty then b.report [t.problem .emptyConcept]
    else { b with finished := b.finished ++ [c] }

/-- The concept that a heading opens: every argument of the heading is a formal parameter. -/
def conceptOf (b : ConceptBuilder) (t : Token) (title : Text) (scanned : StepText.Scanned) :
    Concept :=
  let names := scanned.args.map (·.text)
  { fileName := b.fileName
    heading := ⟨t.lineNo, scanned.value, title, names.map .dynamic, false⟩
    formals := .ofNames names
    items := []
    preComments := b.preComments }

/-- A heading opens a concept. -/
def heading (b : ConceptBuilder) (t : Token) (title : Text) : ConceptBuilder :=
  let b := { b.finish with focus := .nothing }
  match StepText.scan title with
  | .error fault => b.report [t.problem (.stepText fault)]
  | .ok scanned =>
    if scanned.args.any (·.kind != .dynamic) then b.report [t.problem .conceptParams]
    else { b with current := some (b.conceptOf t title scanned, t), preComments := [] }

/-- A step of the open concept. It must not call that concept. -/
def step (b : ConceptBuilder) (files : FileSource) (t : Token) (value : Text)
    (args : List RawArg) (block : Option Text) : ConceptBuilder :=
  match b.current with
  | none => b.report [t.problem .strayStep]
  | some (c, _) =>
    let (step, found) := t.readStep c.formals files value args block
    let self := if step.value == c.signature then [t.problem .selfCall] else []
    { (b.report (found ++ self)).mapCurrent (·.addItem (.step step)) with focus := .step }

/-- The first line of a table. -/
def tableHeader (b : ConceptBuilder) (t : Token) (cells : List Text) : ConceptBuilder :=
  if b.current.isSome ∧ b.focus ≠ .nothing then
    let table := (Table.empty t.lineNo).addHeaders cells
    { b.mapCurrent (·.mapLatestStep (·.addInlineTable table)) with focus := .table }
  else b.report [t.problem .strayConceptTable]

/-- Keeps a token as a comment, which ends the step and the table above it. -/
def comment (b : ConceptBuilder) (t : Token) : ConceptBuilder :=
  let comment : Comment := ⟨t.asComment, t.lineNo⟩
  let b := { b with focus := .nothing }
  if b.current.isSome then b.mapCurrent (·.addItem (.comment comment))
  else { b with preComments := b.preComments ++ [comment] }

/-- A further line of a table. -/
def tableRow (b : ConceptBuilder) (files : FileSource) (t : Token) (cells : List Text) :
    ConceptBuilder :=
  if Row.isSeparator cells then b
  else
    match b.current with
    | some (c, _) =>
      if b.focus = .table then
        let (cells, found) := t.readRow c.formals files cells
        (b.report found).mapCurrent (·.mapLatestStep (·.addInlineRow cells))
      else b.comment t
    | none => b.comment t

/-- Takes one token. -/
def accept (files : FileSource) (b : ConceptBuilder) (t : Token) : ConceptBuilder :=
  match t.content with
  | .heading _ title => b.heading t title
  | .step value args block => b.step files t value args block
  | .tableHeader _ cells => b.tableHeader t cells
  | .tableRow _ cells => b.tableRow files t cells
  | .comment _ | .tags _ _ | .dataTable _ | .tearDown _ => b.comment t

end ConceptBuilder

def Concept.ofTokens (fileName : Text) (files : FileSource) (tokens : List Token) :
    Except Rejection (Parsed (List Concept)) :=
  let b := (tokens.foldl (ConceptBuilder.accept files) (.start fileName)).finish
  Parsed.settle b.finished b.diagnostics

/-- The concepts of a source, or everything that is wrong with it. -/
def Concept.parse (source fileName : Text) (files : FileSource) :
    Except Rejection (Parsed (List Concept)) := do
  let tokens ← tokenize source
  Concept.ofTokens fileName files tokens

end ScenarioBook
