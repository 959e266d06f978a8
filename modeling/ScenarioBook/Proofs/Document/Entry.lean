import Mathlib.Data.List.Forall2
import Mathlib.Data.List.Induction
import ScenarioBook.Proofs.Document.Open
import ScenarioBook.Proofs.Token.Header

/-!
# Entries: the tokens behind an item

An item of a document comes from one token, or from a token with the table lines below it. An
`Entry` is such a group, and `Entry.Records` says that an item is what the group stands for: the
step of the line with one table for each header below it, a data table with a row for each further
line, tags with their values, or a comment with the text of the line. Lines of dashes below a header
belong to the group and leave nothing in the table.

A table line that is added below the last one of an entry changes the item in the same way as the
builder does (`Entry.Records.attachTable`, `Entry.Records.attachBelow`, `Entry.Records.extendData`).
-/

set_option autoImplicit false

namespace ScenarioBook

namespace Token

/-- The line of dashes below a header. -/
def isSeparator (t : Token) : Bool := Row.isSeparator t.args

/-- What the cells of a row below a step stand for. -/
def rowCells (files : FileSource) (t : Token) : List Cell := (t.readRow .empty files t.args).1

/-- What the cells of a row of the data table stand for. -/
def dataCells (files : FileSource) (t : Token) : List Cell := (t.readDataRow files t.args).1

/-! ## Reading does not depend on declared names -/

section
variable (t : Token) (frame frame' : Frame) (files : FileSource)

/-- Names that are not declared are reported, and read all the same. -/
theorem fst_readArg (raw : RawArg) :
    (t.readArg frame files raw).1 = (t.readArg frame' files raw).1 := by
  unfold readArg
  split <;> rfl

theorem fst_readStep (value : Text) (raws : List RawArg) (block : Option Text) :
    (t.readStep frame files value raws block).1 = (t.readStep frame' files value raws block).1 := by
  have hargs : (raws.map (t.readArg frame files)).map (·.1) =
      (raws.map (t.readArg frame' files)).map (·.1) := by
    rw [List.map_map, List.map_map]
    exact List.map_congr_left fun raw _ => t.fst_readArg frame frame' files raw
  unfold readStep
  simp only [hargs]
  split
  · rfl
  · split <;> rfl

theorem fst_readCell (cell : Text) :
    (t.readCell frame files cell).1 = (t.readCell frame' files cell).1 := by
  unfold readCell
  split
  · rfl
  · split <;> rfl

theorem fst_readRow (cells : List Text) :
    (t.readRow frame files cells).1 = (t.readRow frame' files cells).1 := by
  rw [readRow, readRow, List.map_map, List.map_map]
  exact List.map_congr_left fun cell _ => t.fst_readCell frame frame' files cell

theorem hasInlineTable_readStep (value : Text) (raws : List RawArg) (block : Option Text) :
    (t.readStep frame files value raws block).1.hasInlineTable = false := by
  unfold readStep
  split
  · rfl
  · split <;> rfl

end

end Token

/-! ## Tables -/

/-- The lines of one table: the header and what stands below it. -/
structure TableLines where
  header : Token
  rows : List Token

namespace TableLines

def tokens (lines : TableLines) : List Token := lines.header :: lines.rows

/-- The table has the names of the header, and for each line below it that is not made of dashes a
row with what `read` makes of the line, cut or filled up to the number of names. -/
structure Gives (read : Token → List Cell) (lines : TableLines) (table : Table) : Prop where
  built : table.Built
  lineNo : table.lineNo = lines.header.lineNo
  header : ∃ row, lines.header.content = .tableHeader row table.headers
  named : table.headers ≠ []
  kinds : ∀ t ∈ lines.rows, ∃ row cells, t.content = .tableRow row cells
  rows : table.rows = (lines.rows.filter (!·.isSeparator)).map fun t =>
    Table.fit table.headers.length (read t)

section
variable {read : Token → List Cell} {lines : TableLines} {table : Table} {t : Token}
  {row : Text} {cells : List Text}

/-- A header gives a table without rows. -/
theorem gives_header (hc : t.content = .tableHeader row cells) (hn : Row.Names cells) :
    Gives read ⟨t, []⟩ ((Table.empty t.lineNo).addHeaders cells) := by
  have htable := Table.addHeaders_empty t.lineNo hn.tight hn.distinct
  have hheaders : ((Table.empty t.lineNo).addHeaders cells).headers = cells := by
    rw [htable, Table.headers, List.map_map]
    exact List.map_id' cells
  refine ⟨.addHeaders (.empty _) _, by rw [htable], ⟨row, ?_⟩, ?_, fun _ ht => ?_, ?_⟩
  · rw [hheaders]
    exact hc
  · rw [hheaders]
    exact hn.nonempty
  · cases ht
  · rw [htable, Table.rows]
    cases cells <;> rfl

/-- A line below the others is the last row. -/
theorem Gives.add (h : lines.Gives read table) (hc : t.content = .tableRow row cells)
    (hsep : t.isSeparator = false) :
    Gives read { lines with rows := lines.rows ++ [t] } (table.addRow (read t)) := by
  have hcols : table.columns ≠ [] := by
    intro hnil
    exact h.named (by rw [Table.headers, hnil]; rfl)
  have hlen : table.columns.length = table.headers.length := (List.length_map _).symm
  refine ⟨.addRow h.built _, h.lineNo, ?_, ?_, ?_, ?_⟩
  · rw [Table.headers_addRow]
    exact h.header
  · rw [Table.headers_addRow]
    exact h.named
  · exact List.forall_mem_append.2 ⟨h.kinds, by simpa using ⟨row, cells, hc⟩⟩
  · rw [Table.rows_addRow h.built.regular hcols, h.rows, Table.headers_addRow, hlen,
      List.filter_append, List.map_append]
    simp [hsep]

/-- A line of dashes is no row. -/
theorem Gives.skip (h : lines.Gives read table) (hc : t.content = .tableRow row cells)
    (hsep : t.isSeparator = true) :
    Gives read { lines with rows := lines.rows ++ [t] } table := by
  refine ⟨h.built, h.lineNo, h.header, h.named, ?_, ?_⟩
  · exact List.forall_mem_append.2 ⟨h.kinds, by simpa using ⟨row, cells, hc⟩⟩
  · rw [h.rows, List.filter_append]
    simp [hsep]

end

end TableLines

/-- A file gives a table that the operations make. -/
theorem Csv.built_toTable (t : Text) : (toTable t).Built := by
  unfold toTable
  split
  case h_1 => exact .empty 0
  case h_2 headers rows _ =>
    exact List.foldlRecOn rows Table.addRowValues (.addHeaders (.empty 0) headers)
      fun _ hbuilt row _ => .addRow hbuilt _

theorem Reference.built_dataTable {files : FileSource} {path : Text} {table : Table}
    (h : Reference.dataTable files path = .ok table) : table.Built := by
  unfold Reference.dataTable at h
  cases hread : contents files ("table:".toList ++ path) path with
  | error fault => rw [hread] at h; cases h
  | ok t =>
    rw [hread] at h
    cases h
    exact Csv.built_toTable t

/-! ## Entries -/

/-- What stands for two lists stands for each of them. -/
theorem exists_of_forall₂_append {α β : Type} {R : α → β → Prop} {as : List α} {bs bs' : List β}
    (h : List.Forall₂ R as (bs ++ bs')) :
    ∃ before after, as = before ++ after ∧ List.Forall₂ R before bs ∧ List.Forall₂ R after bs' :=
  ⟨as.take bs.length, as.drop bs.length, (List.take_append_drop ..).symm,
    List.forall₂_take_append as bs bs' h, List.forall₂_drop_append as bs bs' h⟩

/-- The tokens that one item was read from. -/
inductive Entry where
  /-- a line that is an item of its own -/
  | line (t : Token)
  /-- the lines of the data table -/
  | data (lines : TableLines)
  /-- the line of a step, and the tables below it -/
  | step (t : Token) (tables : List TableLines)

namespace Entry

/-- The line that the item starts with. -/
def token : Entry → Token
  | line t => t
  | data lines => lines.header
  | step t _ => t

/-- The table lines below the first line. -/
def below : Entry → List Token
  | line _ => []
  | data lines => lines.rows
  | step _ tables => tables.flatMap TableLines.tokens

def tokens (e : Entry) : List Token := e.token :: e.below

/-- The item is what the tokens of the entry stand for, where only tokens with `Kept` stand as
comments. A scenario counts without its items, which have entries of their own. -/
inductive Records (files : FileSource) (Kept : Token → Prop) : Entry → Item → Prop
  | comment {t : Token} (hk : t.Keepable) (hkept : Kept t) :
      Records files Kept (.line t) (.comment ⟨t.asComment, t.lineNo⟩)
  | tags {t : Token} {text : Text} {values : List Text} (hc : t.content = .tags text values) :
      Records files Kept (.line t) (.tags ⟨values, t.lineNo⟩)
  | reference {t : Token} {path : Text} {table : Table} (hc : t.content = .dataTable path)
      (href : Reference.dataTable files path = .ok table) :
      Records files Kept (.line t) (.dataTable ⟨{ table with lineNo := t.lineNo }, some path⟩)
  | scenario {t : Token} {title : Text} (hc : t.content = .heading .scenario title) :
      Records files Kept (.line t) (.scenario ⟨title, t.lineNo, .scenario⟩ [])
  | tearDown {t : Token} {marker : Text} (hc : t.content = .tearDown marker) :
      Records files Kept (.line t) (.tearDown ⟨marker, t.lineNo⟩)
  | data {lines : TableLines} {table : Table}
      (htable : lines.Gives (Token.dataCells files) table) :
      Records files Kept (.data lines) (.dataTable ⟨table, none⟩)
  | step {t : Token} {value : Text} {args : List RawArg} {block : Option Text}
      {lines : List TableLines} {tables : List Table} {tree : StepTree}
      (hc : t.content = .step value args block)
      (htables : List.Forall₂ (TableLines.Gives (Token.rowCells files)) lines tables)
      (hstep : tree.step =
        tables.foldl Step.addInlineTable (t.readStep .empty files value args block).1) :
      Records files Kept (.step t lines) (.step tree)

/-- The entry with one more token below it. -/
def ExtendedBy (e : Entry) (t : Token) (e' : Entry) : Prop :=
  e'.token = e.token ∧ e'.below = e.below ++ [t]

section
variable {files : FileSource} {Kept : Token → Prop} {e : Entry} {t : Token}

theorem Records.mono {Kept' : Token → Prop} {i : Item} (h : e.Records files Kept i)
    (hk : ∀ t, Kept t → Kept' t) : e.Records files Kept' i := by
  cases h with
  | comment hkeep hkept => exact .comment hkeep (hk _ hkept)
  | tags hc => exact .tags hc
  | reference hc href => exact .reference hc href
  | scenario hc => exact .scenario hc
  | tearDown hc => exact .tearDown hc
  | data htable => exact .data htable
  | step hc htables hstep => exact .step hc htables hstep

/-- The data table of an entry, be it written out or in a file, is one that the operations make. -/
theorem Records.built {data : DataTable} (h : e.Records files Kept (.dataTable data)) :
    data.table.Built := by
  cases h with
  | reference hc href => exact .replace (Reference.built_dataTable href) rfl
  | data htable => exact htable.built

/-! ## One more line -/

theorem step_mapStep (f : Step → Step) (tree : StepTree) :
    (tree.mapStep f).step = f tree.step := by
  cases tree <;> rfl

/-- **A header below a step is one more table.** -/
theorem Records.attachTable {tree : StepTree} (h : e.Records files Kept (.step tree)) {row : Text}
    {cells : List Text} (hc : t.content = .tableHeader row cells) (hn : Row.Names cells) :
    ∃ e', e.ExtendedBy t e' ∧ e'.Records files Kept (.step (tree.mapStep
      (·.addInlineTable ((Table.empty t.lineNo).addHeaders cells)))) := by
  cases h with
  | @step own value args block lines tables _ hstepc htables hstep =>
    refine ⟨.step own (lines ++ [⟨t, []⟩]), ⟨rfl, ?_⟩, .step hstepc
      (List.rel_append htables (.cons (TableLines.gives_header hc hn) .nil)) ?_⟩
    · simp [below, TableLines.tokens]
    · rw [step_mapStep, hstep, List.foldl_append]
      rfl

/-- **A line below the last table of a step** changes that table. -/
theorem Records.attachBelow {tree : StepTree} (h : e.Records files Kept (.step tree))
    (hi : tree.step.inlineTable?.isSome) {f : Step → Step} {g : Table → Table}
    (hf : ∀ s table, f (Step.addInlineTable s table) = s.addInlineTable (g table))
    (hg : ∀ lines table, TableLines.Gives (Token.rowCells files) lines table →
      TableLines.Gives (Token.rowCells files) { lines with rows := lines.rows ++ [t] } (g table)) :
    ∃ e', e.ExtendedBy t e' ∧ e'.Records files Kept (.step (tree.mapStep f)) := by
  cases h with
  | @step own value args block lines tables _ hstepc htables hstep =>
    cases tables using List.reverseRecOn with
    | nil =>
      -- the line alone has no table
      have hnone := own.hasInlineTable_readStep .empty files value args block
      rw [hstep, List.foldl_nil, Step.inlineTable?, hnone] at hi
      cases hi
    | append_singleton tables table =>
      obtain ⟨earlier, after, rfl, hearlier, hafter⟩ := exists_of_forall₂_append htables
      obtain ⟨last, rest, hlast, hrest, rfl⟩ := List.forall₂_cons_right_iff.1 hafter
      cases hrest
      refine ⟨.step own (earlier ++ [{ last with rows := last.rows ++ [t] }]), ⟨rfl, ?_⟩,
        .step hstepc (List.rel_append hearlier (.cons (hg last table hlast) .nil)) ?_⟩
      · simp [below, TableLines.tokens]
      · rw [step_mapStep, hstep, List.foldl_append, List.foldl_append]
        exact hf _ table

/-- **A line below the data table** changes it. -/
theorem Records.extendData {table : Table} (h : e.Records files Kept (.dataTable ⟨table, none⟩))
    {g : Table → Table}
    (hg : ∀ lines table, TableLines.Gives (Token.dataCells files) lines table →
      TableLines.Gives (Token.dataCells files) { lines with rows := lines.rows ++ [t] } (g table)) :
    ∃ e', e.ExtendedBy t e' ∧ e'.Records files Kept (.dataTable ⟨g table, none⟩) := by
  cases h with
  | @data lines _ htable =>
    exact ⟨.data { lines with rows := lines.rows ++ [t] }, ⟨rfl, rfl⟩,
      .data (hg lines table htable)⟩

end

end Entry

end ScenarioBook
