import Mathlib.Data.List.Infix
import ScenarioBook.Document.Builder
import ScenarioBook.Proofs.Document.Checked
import ScenarioBook.Proofs.Layout.Lines
import ScenarioBook.Proofs.StepText.Written

/-!
# Writable documents

A document is `Writable` if every item of it, written on lines of its own, is read back as the same
item: its text holds nothing that ends or opens something else, and it stands where its lines fall
to it again. The clauses are about one item and the items before it (`Item.Fits`), so they can be
checked from front to back (`FitAll`).

Of the items before, the clauses look at the section they leave open (`sectionAfter`), at what their
lines leave to the next line (`trailAfter`), and at what the section has already and ignores from
now on (`Ignored`). Ignored lines are kept as comments, and they stay comments only where they are
ignored again.
-/

set_option autoImplicit false

namespace ScenarioBook

/-! ## Steps -/

namespace Step

/-- The table below the step. -/
def table? (s : Step) : Option Table :=
  match s.args.getLast? with
  | some (.table t) => some t
  | _ => none

/-- The step without its last argument, which has no place in the line. -/
def dropTrailing (s : Step) : Step :=
  { s with
    value := ((' ' :: placeholder).isSuffixOf? s.value).getD s.value
    args := s.args.dropLast
    hasInlineTable := false }

/-- The step without the table below it. -/
def upToTable (s : Step) : Step := if s.table?.isSome then s.dropTrailing else s

/-- The block below the step, which stands above its table. -/
def block? (s : Step) : Option Text :=
  match s.upToTable.args.getLast? with
  | some (.block contents) => some contents
  | _ => none

/-- The step without what stands below its line. -/
def line (s : Step) : Step := if s.block?.isSome then s.upToTable.dropTrailing else s.upToTable

/-- What stands below the line of the step. -/
def below (s : Step) : List Arg := s.block?.toList.map .block ++ s.table?.toList.map .table

/-- The step with a block put below its line. -/
def withBlock (s : Step) : Option Text → Step
  | none => s
  | some contents => s.pushTrailing (.block contents)

/-- The step with a table put below it. -/
def withTable (s : Step) : Option Table → Step
  | none => s
  | some t => s.addInlineTable t

end Step

/-- The argument is written on one line. -/
def Arg.OnOneLine : Arg → Prop
  | .literal _ => True
  | arg => '\n' ∉ arg.name

/-- Reading the text of the argument gives the argument, if `names` are declared. -/
def Arg.Kept (files : FileSource) (names : List Text) : Arg → Prop
  | .literal _ => True
  | .dynamic n => n ∈ names
  | .special n contents => Reference.resolve files n = .ok (.special n contents)
  | .specialTable n t => Reference.resolve files n = .ok (.specialTable n t)
  | .table _ | .block _ => False

/-- Reading the text of the cell gives the cell, if `names` are declared. -/
def Cell.Kept (files : FileSource) (names : List Text) : Cell → Prop
  | .literal v => Token.bracketed? v = none
  | .dynamic n => n.Tight ∧ n.startsWith "file:".toList = false ∧ n ∈ names
  | .special p => p.Tight ∧ p.startsWith "file:".toList ∧ (Reference.resolve files p).isOk

/-- Reading the text of the cell as one of the data table gives the cell. -/
def Cell.KeptInData (files : FileSource) : Cell → Prop
  | .literal v => ∀ p ∈ Token.bracketed? v, p.startsWith "file:".toList = false
  | .dynamic _ => False
  | .special p => p.Tight ∧ p.startsWith "file:".toList ∧ (Reference.resolve files p).isOk

/-- The lines of the table are read back as its header and its rows. -/
structure Table.Writable (t : Table) : Prop where
  columns : t.columns ≠ []
  headers : ∀ h ∈ t.headers, h ≠ [] ∧ h.Tight ∧ '\n' ∉ h
  distinct : t.headers.Nodup
  filled : ∀ col ∈ t.columns, col.cells.length = t.rowCount
  cells : ∀ cell ∈ t.cells, cell.written.Tight ∧ '\n' ∉ cell.written
  rows : ∀ row ∈ t.rows, Row.isSeparator (row.map Cell.written) = false

/-- The lines of a block stay its lines: none is a fence or ends with a carriage return. -/
def BlockWritable (contents : Text) : Prop :=
  ∀ line ∈ contents.splitOn '\n', Text.trim line ≠ Line.fence ∧ line.getLast? ≠ some '\r'

/-- The step is read back from its lines, if `names` are declared. -/
structure Step.Writable (files : FileSource) (names : List Text) (s : Step) : Prop where
  shape : s = (s.line.withBlock s.block?).withTable s.table?
  whole : StepText.whole s.line.value
  tight : s.line.value.Tight
  nonempty : s.line.value ≠ []
  typed : ∀ name ∈ StepText.typedPlaceholders, ¬ name <:+: s.line.value
  newline : '\n' ∉ s.line.value
  args : ∀ arg ∈ s.line.args, arg.Readable ∧ arg.OnOneLine ∧ arg.Kept files names
  room : s.line.args.length ≤ placeholderCount s.line.value
  exact : s.below ≠ [] → s.line.args.length = placeholderCount s.line.value
  flag : s.line.hasInlineTable = false
  block : ∀ contents ∈ s.block?, s.line.args = [] ∧ BlockWritable contents
  table : ∀ t ∈ s.table?, t.Writable ∧ ∀ cell ∈ t.cells, cell.Kept files names

/-! ## What stands before an item -/

/-- The section that is open after one more item of a document. -/
def Section.after (current : Section) : Item → Section
  | .scenario _ _ => .scenario
  | .tearDown _ => .tearDown
  | _ => current

/-- The section that is open after some items of a document. -/
def sectionAfter (items : List Item) : Section := items.foldl Section.after .context

theorem sectionAfter_concat (items : List Item) (i : Item) :
    sectionAfter (items ++ [i]) = (sectionAfter items).after i := by
  rw [sectionAfter, List.foldl_append]
  rfl

/-- What the lines so far leave to the next line: the mode of the lexer, and whether a step or a
table still takes table lines. -/
structure Trail where
  mode : Mode := .fresh
  isOpen : Bool := false

/-- What a comment with a line of this shape leaves. -/
def Shape.trail (w : Trail) : Shape → Trail
  | .blank | .underline _ | .prose => ⟨.comment, false⟩
  | .tags text => ⟨modeAfterTags text, false⟩
  | .tableLine => ⟨.table, false⟩
  | .dataTable _ => w
  | .heading _ _ | .step _ | .tearDown => ⟨.fresh, false⟩

def Step.trail (s : Step) : Trail := ⟨if s.table?.isSome then .table else .fresh, true⟩

/-- The shape of the line that is written for a comment. -/
def Comment.shape (c : Comment) : Shape := Shape.ofTrimmed c.text.trim

mutual

/-- What the lines of an item leave. -/
def Item.trail (w : Trail) : Item → Trail
  | .comment c => c.shape.trail w
  | .step t => t.step.trail
  | .tags _ | .tearDown _ => {}
  | .dataTable d => if d.reference.isSome then w else ⟨.table, true⟩
  | .scenario _ items => trailFrom {} items

def trailFrom (w : Trail) : List Item → Trail
  | [] => w
  | i :: is => trailFrom (i.trail w) is

end

/-- What the lines of the items leave, behind a heading. -/
def trailAfter (items : List Item) : Trail := trailFrom {} items

theorem trailAfter_concat (items : List Item) (i : Item) :
    trailAfter (items ++ [i]) = i.trail (trailAfter items) := by
  have hfrom : ∀ w, trailFrom w (items ++ [i]) = i.trail (trailFrom w items) := by
    induction items with
    | nil =>
      intro w
      rw [List.nil_append, trailFrom, trailFrom, trailFrom]
    | cons j js ih =>
      intro w
      rw [List.cons_append, trailFrom, ih, trailFrom]
  exact hfrom _

/-- What the open section ignores: more tags, a table that no step takes, a `table:` line. -/
structure Ignored where
  tags : Bool
  table : Bool
  data : Bool

/-- What a scenario ignores behind these items. -/
def Ignored.ofScenario (before : List Item) : Ignored := ⟨before.any (·.tags?.isSome), true, true⟩

/-- What a document ignores behind these items, outside its scenarios. -/
def Ignored.ofDocument (before : List Item) : Ignored where
  tags := before.any (·.tags?.isSome)
  table :=
    if sectionAfter before = .tearDown then (before.dropWhile Item.isBody).all (·.step?.isNone)
    else before.any (·.dataTable?.isSome)
  data := before.any (·.dataTable?.isSome)

/-! ## Items -/

/-- The line is prose, or dashes that underline nothing. -/
def Shape.isProse : Shape → Bool
  | .prose | .underline _ => true
  | _ => false

namespace Item

/-- A comment that a line of dashes would underline. -/
def isProse : Item → Bool
  | .comment c => c.shape.isProse
  | _ => false

/-- A step with nothing below its line, which takes a block. -/
def isBareStep : Item → Bool
  | .step t => t.step.below.isEmpty
  | _ => false

end Item

/-- A line of this shape is read as a comment, or as something that is ignored and kept. -/
def Shape.Stays (files : FileSource) (ignored : Ignored) (before : List Item) (text : Text) :
    Shape → Prop
  | .prose =>
    (trailAfter before).mode ≠ .tags ∧
      ∀ prev ∈ before.getLast?, prev.isBareStep → text.trim ≠ Line.fence
  | .underline _ => ∀ prev ∈ before.getLast?, prev.isProse = false
  | .tags _ => ignored.tags
  | .tableLine =>
    (trailAfter before).mode ≠ .tags ∧ (trailAfter before).isOpen = false ∧
      ((trailAfter before).mode ≠ .table →
        ignored.table ∧ Row.headerFault? (Row.splitCells text.trim) = none)
  | .dataTable path =>
    (trailAfter before).mode ≠ .tags ∧ path ≠ [] ∧ ignored.data ∧
      (Reference.dataTable files path).isOk
  | .blank | .heading _ _ | .step _ | .tearDown => False

/-- The comment is read back behind the items `before`. -/
def Comment.Fits (files : FileSource) (ignored : Ignored) (before : List Item) (c : Comment) :
    Prop :=
  c.isBlank ∨
    '\n' ∉ c.text ∧ c.text.trimEnd = c.text ∧ c.shape.Stays files ignored before c.text

/-- Tags that are read as these tags again. -/
def Tags.Writable (t : Tags) : Prop :=
  ∀ value ∈ t.values, value ≠ [] ∧ value.Tight ∧ ',' ∉ value ∧ '\n' ∉ value

/-- A heading of this kind whose title is read as the title again. -/
def Heading.Writable (kind : HeadingKind) (h : Heading) : Prop :=
  h.title.Tight ∧ h.title ≠ [] ∧ '\n' ∉ h.title ∧ h.kind = kind

namespace Item

/-- A comment, a step or tags, read back behind the items `before`. -/
def FitsIn (files : FileSource) (names : List Text) (ignored : Ignored) (before : List Item) :
    Item → Prop
  | .comment c => c.Fits files ignored before
  | .step t => t.step.Writable files names
  | .tags t => t.Writable ∧ ignored.tags = false
  | .dataTable _ | .scenario _ _ | .tearDown _ => False

/-- The item of a scenario is read back behind the items `before` of the scenario. -/
def FitsInScenario (files : FileSource) (names : List Text) (before : List Item) (i : Item) :
    Prop :=
  i.FitsIn files names (.ofScenario before) before

end Item

/-- Every item fits behind the items before it. -/
def FitAll (fits : List Item → Item → Prop) (before : List Item) : List Item → Prop
  | [] => True
  | i :: is => fits before i ∧ FitAll fits (before ++ [i]) is

/-- The names that the data table among the items declares. -/
def namesOf (items : List Item) : List Text :=
  (Frame.ofNames ((items.findSome? Item.headers?).getD [])).names

/-- The data table is read back behind the items `before`. -/
def DataTable.Fits (files : FileSource) (before : List Item) (d : DataTable) : Prop :=
  (∀ i ∈ before, i.dataTable? = none) ∧ (trailAfter before).mode ≠ .tags ∧
    match d.reference with
    | some path =>
      path ≠ [] ∧ path.Tight ∧ '\n' ∉ path ∧
        (Reference.dataTable files path).map Table.columns = .ok d.table.columns
    | none =>
      sectionAfter before = .context ∧ (trailAfter before).mode ≠ .table ∧
        (trailAfter before).isOpen = false ∧ d.table.Writable ∧
        ∀ cell ∈ d.table.cells, cell.KeptInData files

/-- The item of a document is read back behind the items `before`. -/
def Item.Fits (files : FileSource) (before : List Item) : Item → Prop
  | .dataTable d => sectionAfter before ≠ .scenario ∧ d.Fits files before
  | .tearDown t =>
    (trailAfter before).mode ≠ .tags ∧ Text.allOf '_' t.marker ∧ 3 ≤ t.marker.length
  | .scenario h items =>
    h.Writable .scenario ∧
      (∀ i ∈ before, ∀ s ∈ i.scenario?, s.heading.title.lower ≠ h.title.lower) ∧
      FitAll (FitsInScenario files (namesOf before)) [] items
  | i =>
    sectionAfter before ≠ .scenario ∧ i.FitsIn files (namesOf before) (.ofDocument before) before

/-- The document is read back from what is written for it. -/
structure Document.Writable (files : FileSource) (d : Document) : Prop where
  heading : ∃ h, d.heading = some h ∧ h.Writable .spec
  items : FitAll (Item.Fits files) [] d.items
  flawless : d.flaws = []

/-! ## Deciding -/

section
variable (files : FileSource) (names : List Text)

instance : DecidablePred Arg.Readable
  | .literal _ => inferInstanceAs (Decidable True)
  | .dynamic _ | .special _ _ | .specialTable _ _ => inferInstanceAs (Decidable (_ ∧ _))
  | .table _ | .block _ => inferInstanceAs (Decidable False)

instance : DecidablePred Arg.OnOneLine
  | .literal _ => inferInstanceAs (Decidable True)
  | .dynamic _ | .special _ _ | .specialTable _ _ | .table _ | .block _ =>
    inferInstanceAs (Decidable (_ ∉ _))

instance : DecidablePred (Arg.Kept files names)
  | .literal _ => inferInstanceAs (Decidable True)
  | .dynamic n => inferInstanceAs (Decidable (n ∈ names))
  | .special _ _ | .specialTable _ _ => inferInstanceAs (Decidable (_ = _))
  | .table _ | .block _ => inferInstanceAs (Decidable False)

instance : DecidablePred (Cell.Kept files names)
  | .literal _ => inferInstanceAs (Decidable (_ = _))
  | .dynamic _ | .special _ => inferInstanceAs (Decidable (_ ∧ _))

instance : DecidablePred (Cell.KeptInData files)
  | .literal v => inferInstanceAs
      (Decidable (∀ p ∈ Token.bracketed? v, p.startsWith "file:".toList = false))
  | .dynamic _ => inferInstanceAs (Decidable False)
  | .special _ => inferInstanceAs (Decidable (_ ∧ _))

instance : DecidablePred Table.Writable := fun t =>
  decidable_of_iff
    (t.columns ≠ [] ∧ (∀ h ∈ t.headers, h ≠ [] ∧ h.Tight ∧ '\n' ∉ h) ∧ t.headers.Nodup ∧
      (∀ col ∈ t.columns, col.cells.length = t.rowCount) ∧
      (∀ cell ∈ t.cells, cell.written.Tight ∧ '\n' ∉ cell.written) ∧
      ∀ row ∈ t.rows, Row.isSeparator (row.map Cell.written) = false)
    ⟨fun ⟨h1, h2, h3, h4, h5, h6⟩ => ⟨h1, h2, h3, h4, h5, h6⟩,
      fun ⟨h1, h2, h3, h4, h5, h6⟩ => ⟨h1, h2, h3, h4, h5, h6⟩⟩

instance : DecidablePred BlockWritable := fun contents =>
  inferInstanceAs (Decidable
    (∀ line ∈ contents.splitOn '\n', Text.trim line ≠ Line.fence ∧ line.getLast? ≠ some '\r'))

instance : DecidablePred (Step.Writable files names) := fun s =>
  decidable_of_iff
    (s = (s.line.withBlock s.block?).withTable s.table? ∧ StepText.whole s.line.value ∧
      s.line.value.Tight ∧ s.line.value ≠ [] ∧
      (∀ name ∈ StepText.typedPlaceholders, ¬ name <:+: s.line.value) ∧ '\n' ∉ s.line.value ∧
      (∀ arg ∈ s.line.args, arg.Readable ∧ arg.OnOneLine ∧ arg.Kept files names) ∧
      s.line.args.length ≤ placeholderCount s.line.value ∧
      (s.below ≠ [] → s.line.args.length = placeholderCount s.line.value) ∧
      s.line.hasInlineTable = false ∧
      (∀ contents ∈ s.block?, s.line.args = [] ∧ BlockWritable contents) ∧
      ∀ t ∈ s.table?, t.Writable ∧ ∀ cell ∈ t.cells, cell.Kept files names)
    ⟨fun ⟨h1, h2, h3, h4, h5, h6, h7, h8, h9, h10, h11, h12⟩ =>
        ⟨h1, h2, h3, h4, h5, h6, h7, h8, h9, h10, h11, h12⟩,
      fun ⟨h1, h2, h3, h4, h5, h6, h7, h8, h9, h10, h11, h12⟩ =>
        ⟨h1, h2, h3, h4, h5, h6, h7, h8, h9, h10, h11, h12⟩⟩

instance (ignored : Ignored) (before : List Item) (text : Text) :
    DecidablePred (Shape.Stays files ignored before text)
  | .prose | .tableLine | .dataTable _ => inferInstanceAs (Decidable (_ ∧ _))
  | .underline _ => inferInstanceAs (Decidable (∀ prev ∈ before.getLast?, prev.isProse = false))
  | .tags _ => inferInstanceAs (Decidable (ignored.tags = true))
  | .blank | .heading _ _ | .step _ | .tearDown => inferInstanceAs (Decidable False)

instance (ignored : Ignored) (before : List Item) :
    DecidablePred (Comment.Fits files ignored before) :=
  fun _ => inferInstanceAs (Decidable (_ ∨ _))

instance : DecidablePred Tags.Writable := fun t =>
  inferInstanceAs (Decidable (∀ value ∈ t.values, value ≠ [] ∧ value.Tight ∧ ',' ∉ value ∧
    '\n' ∉ value))

instance (kind : HeadingKind) : DecidablePred (Heading.Writable kind) :=
  fun _ => inferInstanceAs (Decidable (_ ∧ _))

instance (ignored : Ignored) (before : List Item) :
    DecidablePred (Item.FitsIn files names ignored before)
  | .comment c => inferInstanceAs (Decidable (c.Fits files ignored before))
  | .step t => inferInstanceAs (Decidable (t.step.Writable files names))
  | .tags _ => inferInstanceAs (Decidable (_ ∧ _))
  | .dataTable _ | .scenario _ _ | .tearDown _ => inferInstanceAs (Decidable False)

instance (before : List Item) : DecidablePred (Item.FitsInScenario files names before) :=
  fun i => inferInstanceAs (Decidable (i.FitsIn files names (.ofScenario before) before))

instance decidableFitAll {fits : List Item → Item → Prop}
    [h : ∀ before i, Decidable (fits before i)] :
    ∀ before items, Decidable (FitAll fits before items)
  | _, [] => inferInstanceAs (Decidable True)
  | before, i :: is =>
    have : Decidable (FitAll fits (before ++ [i]) is) := decidableFitAll _ is
    inferInstanceAs (Decidable (fits before i ∧ FitAll fits (before ++ [i]) is))

instance (before : List Item) : DecidablePred (DataTable.Fits files before)
  | ⟨_, some _⟩ | ⟨_, none⟩ => inferInstanceAs (Decidable (_ ∧ _ ∧ _ ∧ _))

instance (before : List Item) : DecidablePred (Item.Fits files before)
  | .comment _ | .step _ | .tags _ | .dataTable _ | .tearDown _ | .scenario _ _ =>
    inferInstanceAs (Decidable (_ ∧ _))

end

end ScenarioBook
