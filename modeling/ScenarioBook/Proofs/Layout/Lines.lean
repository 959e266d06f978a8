import ScenarioBook.Proofs.Layout.Rows
import ScenarioBook.Proofs.Line.Placed
import ScenarioBook.Token.Lexer

/-!
# The lines of a written document

What a layout writes is a list of lines, each with a newline behind it (`item_eq`, `document_eq`).
Reading the text back gives these lines (`map_text_ofSource`), as long as none of them holds a
newline or ends with a carriage return. The shape of a written line is what it was written for:
`Shape.ofTrimmed_step`, `Shape.ofTrimmed_row`, `Shape.ofTrimmed_marker` and the like.
-/

set_option autoImplicit false

namespace ScenarioBook

/-! ## Lines of a text -/

/-- The text stays one line when it is written on a line of its own. -/
def IsLine (t : Text) : Prop := '\n' ∉ t ∧ t.getLast? ≠ some '\r'

theorem Text.rawLines_asLine {t : Text} (h : '\n' ∉ t) (r : Text) :
    rawLines (asLine t ++ r) = asLine t :: rawLines r := by
  rw [asLine, List.append_assoc, List.singleton_append, rawLines_append_newline h]

theorem Text.rawLines_flatMap_asLine {ls : List Text} (h : ∀ t ∈ ls, '\n' ∉ t) :
    rawLines (ls.flatMap asLine) = ls.map asLine := by
  induction ls with
  | nil => rfl
  | cons t ls ih =>
    obtain ⟨ht, hls⟩ := List.forall_mem_cons.1 h
    rw [List.flatMap_cons, rawLines_asLine ht, ih hls, List.map_cons]

theorem Line.dropTerminator_asLine {t : Text} (h : t.getLast? ≠ some '\r') :
    dropTerminator (asLine t) = t := by
  rw [asLine, dropTerminator_newline, Text.chop_of_getLast? h]

/-- **The lines of a written text are the ones that were written.** -/
theorem Line.map_text_ofSource {ls : List Text} (h : ∀ t ∈ ls, IsLine t) :
    (ofSource (ls.flatMap asLine)).map (·.text) = ls := by
  have hplace : ∀ no start, (place no start (ls.map asLine)).map (·.text) = ls := by
    induction ls with
    | nil => exact fun _ _ => rfl
    | cons t ls ih =>
      obtain ⟨ht, hls⟩ := List.forall_mem_cons.1 h
      intro no start
      rw [List.map_cons, place, List.map_cons, ih hls, dropTerminator_asLine ht.2]
  rw [ofSource, Text.rawLines_flatMap_asLine fun t ht => (h t ht).1]
  exact hplace _ _

theorem flatMap_asLine {ts : List Text} (h : ts ≠ []) :
    ts.flatMap asLine = asLine (['\n'].intercalate ts) := by
  induction ts with
  | nil => exact absurd rfl h
  | cons t ts ih =>
    cases ts with
    | nil => simp
    | cons u us => simp [ih, List.intercalate_cons_cons, asLine]

/-- A text is written as the lines between its newlines. -/
theorem flatMap_asLine_splitOn (t : Text) : (t.splitOn '\n').flatMap asLine = asLine t := by
  rw [flatMap_asLine (List.splitOn_ne_nil _ _), List.intercalate_splitOn]

/-! ## Lines of a layout -/

theorem Cell.layout_eq (c : Cell) : c.layout = escapeCell c.written := by
  have happend : ∀ s t : Text, escapeCell (s ++ t) = escapeCell s ++ escapeCell t := by
    intro s t
    induction s with
    | nil => rfl
    | cons c s ih => simp [escapeCell, ih]
  cases c with
  | literal v => rfl
  | dynamic n | special n =>
    simp [layout, written, escapeCell, happend]

namespace Layout

/-- The widths of the columns of a table. -/
def tableWidths (t : Table) : List Nat :=
  widths (t.headers.map escapeCell) (t.rows.map fun cells => cells.map Cell.layout)

def rowLine (l : Layout) (widths : List Nat) (texts : List Text) : Text :=
  List.replicate l.indent ' ' ++ '|' :: bars widths (texts.map escapeCell)

/-- The lines of a table below its header, cut into cells: the dashes, then the rows. -/
def lowerTexts (t : Table) : List (List Text) :=
  (tableWidths t).map (fun w => List.replicate w '-') ::
    t.rows.map fun cells => cells.map Cell.written

def tableLines (l : Layout) (t : Table) : List Text :=
  if t.isInitialized then (t.headers :: lowerTexts t).map (l.rowLine (tableWidths t)) else []

theorem row_map_written (l : Layout) (widths : List Nat) (cells : List Cell) :
    l.row widths (cells.map Cell.layout) = asLine (l.rowLine widths (cells.map Cell.written)) := by
  have hcells : cells.map Cell.layout = (cells.map Cell.written).map escapeCell := by
    rw [List.map_map]
    exact List.map_congr_left fun c _ => c.layout_eq
  rw [hcells]
  rfl

theorem row_dashes (l : Layout) (widths : List Nat) :
    l.row widths (widths.map fun w => List.replicate w '-') =
      asLine (l.rowLine widths (widths.map fun w => List.replicate w '-')) := by
  have hdashes : (widths.map fun w => List.replicate w '-').map escapeCell =
      widths.map fun w => List.replicate w '-' := by
    rw [List.map_map]
    exact List.map_congr_left fun w _ => escapeCell_dashes w
  rw [rowLine, hdashes]
  rfl

theorem table_eq (l : Layout) (t : Table) : l.table t = (l.tableLines t).flatMap asLine := by
  unfold table tableLines
  split
  case isFalse => rfl
  case isTrue =>
    have hrows : ∀ rows : List (List Cell), (rows.map fun cells => cells.map Cell.layout).flatMap
        (l.row (tableWidths t)) =
        ((rows.map fun cells => cells.map Cell.written).map (l.rowLine (tableWidths t))).flatMap
          asLine := by
      intro rows
      simp only [List.flatMap_map, row_map_written]
    rw [lowerTexts, List.map_cons, List.map_cons, List.flatMap_cons, List.flatMap_cons, ← hrows,
      ← row_dashes, ← List.append_assoc]
    rfl

/-- The lines that an argument leaves below the line of its step. -/
def belowLines (l : Layout) : Fragment → List Text
  | .param (.table t) => l.tableLines t
  | .param (.block contents) => Line.fence :: contents.splitOn '\n' ++ [Line.fence]
  | _ => []

def stepLines (l : Layout) (s : Step) : List Text :=
  (['*', ' '] ++ Text.trimEnd (s.fragments.flatMap fragment)) :: s.fragments.flatMap l.belowLines

theorem below_eq (l : Layout) (f : Fragment) : l.below f = (l.belowLines f).flatMap asLine := by
  cases f with
  | text => rfl
  | param arg =>
    cases arg with
    | table t => exact l.table_eq t
    | block contents => simp [below, belowLines, flatMap_asLine_splitOn]
    | _ => rfl

theorem step_eq (l : Layout) (s : Step) : l.step s = (l.stepLines s).flatMap asLine := by
  have hbelow : l.below = fun f => (l.belowLines f).flatMap asLine := funext l.below_eq
  rw [step, hbelow, stepLines, List.flatMap_cons, List.flatMap_assoc]

/-- Below the line of a step stands what its arguments leave there. -/
theorem flatMap_weave (l : Layout) {pieces : List Text} {args : List Arg}
    (h : args.length < pieces.length) :
    (Step.weave pieces args).flatMap l.belowLines =
      args.flatMap fun arg => l.belowLines (.param arg) := by
  have htext : ∀ piece : Text,
      (if piece.isEmpty then [] else [Fragment.text piece]).flatMap l.belowLines = [] := by
    intro piece
    cases piece <;> rfl
  induction pieces generalizing args with
  | nil => simp at h
  | cons piece pieces ih =>
    cases pieces with
    | nil =>
      obtain rfl : args = [] := List.length_eq_zero_iff.1 (by simpa using h)
      exact htext piece
    | cons next pieces =>
      cases args with
      | nil =>
        simp only [Step.weave, List.flatMap_append, htext, List.nil_append, List.flatMap_cons]
        exact ih (by simp)
      | cons arg args =>
        simp only [Step.weave, List.flatMap_append, htext, List.nil_append, List.flatMap_cons,
          List.tail_cons, ih (by simpa using h)]

mutual

def itemLines (l : Layout) : Item → List Text
  | .comment c => [if c.isBlank then [] else c.text]
  | .step t => l.stepLines t.step
  | .tags t => ["tags: ".toList ++ [',', ' '].intercalate t.values]
  | .dataTable d =>
    match d.reference with
    | some path => ["table: ".toList ++ path]
    | none => l.tableLines d.table
  | .tearDown t => [t.marker]
  | .scenario h items => (['#', '#', ' '] ++ h.title.trim) :: l.allLines items

/-- The lines of items in order. -/
def allLines (l : Layout) : List Item → List Text
  | [] => []
  | i :: is => l.itemLines i ++ l.allLines is

end

mutual

theorem item_eq (l : Layout) : ∀ i : Item, l.item i = (l.itemLines i).flatMap asLine
  | .comment c => by
    rw [item, itemLines, comment]
    split <;> simp [asLine]
  | .step t => by rw [item, itemLines, step_eq]
  | .tags t => by simp [item, itemLines, tags]
  | .dataTable d => by
    rw [item, itemLines, dataTable]
    cases d.reference with
    | some path => simp
    | none => exact l.table_eq d.table
  | .tearDown t => by simp [item, itemLines]
  | .scenario h items => by
    rw [item, itemLines, List.flatMap_cons, l.allItems_eq items]

theorem allItems_eq (l : Layout) : ∀ is : List Item, l.allItems is = (l.allLines is).flatMap asLine
  | [] => by rw [allItems, allLines, List.flatMap_nil]
  | i :: is => by rw [allItems, allLines, List.flatMap_append, l.item_eq i, l.allItems_eq is]

end

/-- The lines of a document with a heading. -/
def documentLines (l : Layout) (d : Document) : List Text :=
  (d.heading.map fun h => ['#', ' '] ++ h.title.trim).toList ++ l.allLines d.items

theorem document_eq (l : Layout) (d : Document) :
    l.document d = (l.documentLines d).flatMap asLine := by
  rw [document, documentLines, List.flatMap_append, l.allItems_eq]
  cases d.heading with
  | none => rfl
  | some h => simp [heading]

end Layout

/-! ## Shapes of written lines -/

namespace Shape

theorem ofTrimmed_specHeading (title : Text) :
    ofTrimmed ('#' :: ' ' :: title) = .heading .spec (Text.trim (' ' :: title)) := by
  simp [ofTrimmed, afterMark?, List.isPrefixOf?]

theorem ofTrimmed_scenarioHeading (title : Text) :
    ofTrimmed ('#' :: '#' :: ' ' :: title) = .heading .scenario (Text.trim (' ' :: title)) := by
  simp [ofTrimmed, afterMark?, List.isPrefixOf?]

theorem ofTrimmed_step (text : Text) :
    ofTrimmed ('*' :: ' ' :: text) = .step (Text.trim (' ' :: text)) := by
  simp [ofTrimmed, afterMark?, List.isPrefixOf?, Text.allOf]

theorem ofTrimmed_row {t : Text} (h : Row.isTableLine ('|' :: t) = true) :
    ofTrimmed ('|' :: t) = .tableLine := by
  simp [ofTrimmed, afterMark?, List.isPrefixOf?, Text.allOf, afterTags?,
    Text.dropStartIgnoringCase?, Text.eqIgnoringCase, h]

theorem ofTrimmed_tags (text : Text) :
    ofTrimmed ("tags:".toList ++ text) = .tags text := by
  simp [ofTrimmed, afterMark?, List.isPrefixOf?, Text.allOf, afterTags?,
    Text.dropStartIgnoringCase?, Text.eqIgnoringCase]

theorem ofTrimmed_dataTable (path : Text) :
    ofTrimmed ("table:".toList ++ path) = .dataTable path.trim := by
  simp [ofTrimmed, afterMark?, List.isPrefixOf?, Text.allOf, afterTags?, afterTable?,
    Text.dropStartIgnoringCase?, Text.eqIgnoringCase, Row.isTableLine, Text.startsWith]

theorem ofTrimmed_marker {marker : Text} (h : Text.allOf '_' marker = true) :
    ofTrimmed marker = .tearDown := by
  cases marker with
  | nil => cases h
  | cons c r =>
    obtain rfl : c = '_' := by
      simp only [Text.allOf, List.all_cons, Bool.and_eq_true, beq_iff_eq] at h
      exact h.2.1
    have hother : ∀ c, c ≠ '_' → Text.allOf c ('_' :: r) = false := by
      intro c hc
      simp [Text.allOf, hc.symm]
    simp [ofTrimmed, afterMark?, List.isPrefixOf?, h, hother, afterTags?, afterTable?,
      Text.dropStartIgnoringCase?, Text.eqIgnoringCase, Row.isTableLine, Text.startsWith]

end Shape

end ScenarioBook
