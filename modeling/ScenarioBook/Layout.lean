import ScenarioBook.Concept

/-!
# Canonical text

A layout writes documents and concepts back as text: the heading first, then every item on its own
lines. Step arguments are written in their places, tables and blocks below the step. Tables are
indented, their columns padded to the widest cell, with a line of dashes under the header.
-/

set_option autoImplicit false

namespace ScenarioBook

/-- How many blanks stand before a table line. -/
structure Layout where
  indent : Nat := 5
deriving DecidableEq, Repr

/-- A text as a line of its own. -/
def asLine (t : Text) : Text := t ++ ['\n']

/-- Braces in the literal text of a step are written after a backslash. -/
def escapeBraces : Text → Text
  | [] => []
  | c :: r => (if StepText.isReserved c then ['\\', c] else [c]) ++ escapeBraces r

/-- Backslashes and bars in a cell are written after a backslash. -/
def escapeCell : Text → Text
  | [] => []
  | c :: r => (if c = '\\' ∨ c = '|' then ['\\', c] else [c]) ++ escapeCell r

/-- A cell as it is written in a row. -/
def Cell.layout : Cell → Text
  | .literal v => escapeCell v
  | .dynamic n => '<' :: escapeCell n ++ ['>']
  | .special p => '<' :: escapeCell p ++ ['>']

/-- A text filled up with blanks to a width. -/
def padTo (width : Nat) (t : Text) : Text := t ++ List.replicate (width - t.length) ' '

namespace Layout

/-- A row of cells padded to the widths of their columns. -/
def row (l : Layout) (widths : List Nat) (cells : List Text) : Text :=
  asLine <| List.replicate l.indent ' ' ++
    '|' :: (cells.zip widths).flatMap fun (cell, width) => padTo width cell ++ ['|']

/-- The width of each column: that of its widest cell, the header included. -/
def widths (headers : List Text) (rows : List (List Text)) : List Nat :=
  headers.zipIdx.map fun (header, i) =>
    rows.foldl (fun width cells => max width ((cells[i]?.map List.length).getD 0)) header.length

/-- A table, or nothing if it has no columns. -/
def table (l : Layout) (t : Table) : Text :=
  if t.isInitialized then
    let headers := t.headers.map escapeCell
    let rows := t.rows.map fun cells => cells.map Cell.layout
    let widths := widths headers rows
    l.row widths headers ++ l.row widths (widths.map fun w => List.replicate w '-') ++
      rows.flatMap (l.row widths)
  else []

/-- The text of a fragment in the line of its step. -/
def fragment : Fragment → Text
  | .text t => escapeBraces t
  | .param arg => Step.inlineText arg

/-- What an argument leaves below the line of its step. -/
def below (l : Layout) : Fragment → Text
  | .param (.table t) => l.table t
  | .param (.block contents) => asLine Line.fence ++ asLine contents ++ asLine Line.fence
  | _ => []

/-- A step with what stands below it. -/
def step (l : Layout) (s : Step) : Text :=
  asLine (['*', ' '] ++ Text.trimEnd (s.fragments.flatMap fragment)) ++
    s.fragments.flatMap l.below

/-- A comment; a blank line is a newline alone. -/
def comment (c : Comment) : Text := if c.isBlank then ['\n'] else asLine c.text

/-- A line of tags. -/
def tags (t : Tags) : Text := asLine ("tags: ".toList ++ [',', ' '].intercalate t.values)

/-- The data table, or the line that refers to it. -/
def dataTable (l : Layout) (d : DataTable) : Text :=
  match d.reference with
  | some path => asLine ("table: ".toList ++ path)
  | none => l.table d.table

mutual

/-- An item of a document. -/
def item (l : Layout) : Item → Text
  | .comment c => comment c
  | .step t => l.step t.step
  | .tags t => tags t
  | .dataTable d => l.dataTable d
  | .tearDown t => asLine t.marker
  | .scenario h items => asLine (['#', '#', ' '] ++ h.title.trim) ++ l.allItems items

/-- Items in order. -/
def allItems (l : Layout) : List Item → Text
  | [] => []
  | i :: is => l.item i ++ l.allItems is

end

/-- The heading line of a document. -/
def heading (h : Heading) : Text := asLine (['#', ' '] ++ h.title.trim)

def document (l : Layout) (d : Document) : Text :=
  (d.heading.map heading).getD [] ++ l.allItems d.items

/-- A concept with the comments before it. -/
def concept (l : Layout) (c : Concept) : Text :=
  c.preComments.flatMap comment ++ asLine (['#', ' '] ++ c.heading.parameterizedText) ++
    l.allItems (c.items.map ConceptItem.toItem)

/-- Concepts in order. -/
def concepts (l : Layout) (cs : List Concept) : Text := cs.flatMap l.concept

end Layout

end ScenarioBook
