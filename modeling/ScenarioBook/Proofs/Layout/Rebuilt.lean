import ScenarioBook.Proofs.Layout.Slots
import ScenarioBook.Proofs.Step.Tables

/-!
# Rebuilding tables and steps

The tokens of a step put the step into the slot, its table header puts a table below it, and each
row goes to that table (`Holds`). So the tokens of a written step rebuild it with what stands below
it (`grown_step`). Rows are taken one by one, whoever takes them (`foldl_rows`).
-/

set_option autoImplicit false

namespace ScenarioBook

/-! ## Tables -/

/-- Whatever takes the rows of a table one by one, and passes over the dashes under its header,
takes all rows of a written table. -/
theorem foldl_rows {σ : Type} {accept : σ → Token → σ} {F : Table → σ → Prop} {b : σ}
    {ts : List Token} {t : Table} (ht : t.Writable) (n : Nat)
    (hdashes : ∀ table b token text cells, F table b → token.content = .tableRow text cells →
      Row.isSeparator cells → F table (accept b token))
    (hrow : ∀ row ∈ t.rows, ∀ table b token text, F table b →
      token.content = .tableRow text (row.map Cell.written) →
      F (table.addRow row) (accept b token))
    (hF : F ((Table.empty n).addHeaders t.headers) b)
    (hts : ts.map (·.content) = (Layout.lowerTexts t).map fun row =>
      .tableRow (rowText (Layout.tableWidths t) row) row) :
    F ⟨n, t.columns⟩ (ts.foldl accept b) := by
  have hrows : ∀ (rows : List (List Cell)) (table : Table) (b : σ) (ts : List Token),
      (∀ row ∈ rows, row ∈ t.rows) → F table b →
      ts.map (·.content) = (rows.map fun cells => cells.map Cell.written).map (fun row =>
        .tableRow (rowText (Layout.tableWidths t) row) row) →
      F (rows.foldl Table.addRow table) (ts.foldl accept b) := by
    intro rows
    induction rows with
    | nil =>
      intro table b ts _ hF hts
      obtain rfl : ts = [] := List.map_eq_nil_iff.1 hts
      exact hF
    | cons row rows ih =>
      intro table b ts hmem hF hts
      obtain ⟨hrow', hmem⟩ := List.forall_mem_cons.1 hmem
      obtain ⟨token, ts, rfl, htoken, hts⟩ := List.map_eq_cons_iff.1 hts
      exact ih _ _ ts hmem (hrow row hrow' table b token _ hF htoken) hts
  obtain ⟨token, ts, rfl, htoken, hts⟩ := List.map_eq_cons_iff.1 hts
  have hheader := hdashes _ b token _ _ hF htoken
    (Layout.isSeparator_dashes (tableWidths_ne_nil ht.legible) fun w => tableWidths_pos ht.legible)
  rw [List.foldl_cons, ← Table.foldl_addRow_rows ht]
  exact hrows t.rows _ _ ts (fun _ h => h) hheader hts

namespace Builder

variable {b : Builder} {slot : Slot} {files : FileSource} {ts : List Token}

/-- An open table passes over the dashes. -/
theorem accept_dashes (h : b.place.tableOpen) {t : Token} {text : Text} {cells : List Text}
    (ht : t.content = .tableRow text cells) (hsep : Row.isSeparator cells) :
    accept files b t = b := by
  rw [accept, ht]
  simp only [tableRow, h, hsep]
  rfl

/-! ## Steps -/

variable {names : List Text} {s : Step}

/-- The slot of `b` holds a step, which can take a table or, if it has one, rows. -/
structure Holds (slot : Slot) (b : Builder) (s : Step) (tableOpen : Bool) (b' : Builder) :
    Prop where
  document : b'.document = { b.document with items := slot.fill [.step (.ofStep s)] }
  place : b'.place = ⟨b.place.current, b.place.current != .tearDown, tableOpen⟩
  diagnostics : b'.diagnostics = b.diagnostics

theorem Holds.isOpen {b' : Builder} {tableOpen : Bool} (hh : Holds slot b s tableOpen b')
    (h : slot.IsOpen b.place.current) : slot.IsOpen b'.place.current := by
  rw [hh.place]
  exact h

/-- A step in the slot declares nothing. -/
theorem Holds.frame_names {b' : Builder} {tableOpen : Bool} (hh : Holds slot b s tableOpen b')
    (hb : b.document.items = slot.fill []) : b'.frame.names = b.frame.names := by
  have hfill : ∀ items : List Item, (∀ i ∈ items, i.headers? = none) →
      (slot.fill items).findSome? Item.headers? = (slot.fill []).findSome? Item.headers? := by
    intro items hi
    have hnone : items.findSome? Item.headers? = none := List.findSome?_eq_none_iff.2 hi
    cases slot with
    | document outer => simp [Slot.fill, List.findSome?_append, hnone]
    | scenario outer heading inner =>
      simp [Slot.fill, List.findSome?_append, Item.headers?, Item.dataTable?]
  rw [Builder.frame_names, Builder.frame_names, Document.names, Document.names, Document.headers,
    Document.headers, hh.document, hb]
  rw [hfill [.step (.ofStep s)] (by simp [Item.headers?, Item.dataTable?])]

theorem holds_step (h : slot.IsOpen b.place.current) (hb : b.document.items = slot.fill [])
    (hw : s.Writable files names) (hf : b.frame.names = names) {t : Token}
    (ht : t.content = .step s.line.value (s.line.args.filterMap Arg.raw?) s.block?) :
    Holds slot b ((s.line.withBlock s.block?).placed t) false (accept files b t) := by
  rw [accept, ht]
  simp only [step, if_neg (ne_preamble h), t.readStep_contents hw hf]
  refine ⟨?_, rfl, List.append_nil _⟩
  exact document_add (b := b.report []) h hb _

theorem latestTearDownStep?_isSome {tree : StepTree} (h : slot.IsOpen .tearDown)
    (hb : b.document.items = slot.fill [.step tree]) : b.document.latestTearDownStep?.isSome := by
  cases slot with
  | document outer =>
    obtain ⟨-, hafter⟩ := afterBody_concat h.1.symm hb
    simp [Document.latestTearDownStep?, Document.tearDownSteps, hafter, Item.step?]
  | scenario => cases h

theorem Holds.header {b' : Builder} (hh : Holds slot b s false b')
    (h : slot.IsOpen b.place.current) {t : Token} {text : Text} {cells : List Text}
    (ht : t.content = .tableHeader text cells) :
    Holds slot b (s.addInlineTable ((Table.empty t.lineNo).addHeaders cells)) true
      (accept files b' t) := by
  have hitems : b'.document.items = slot.fill [.step (.ofStep s)] := by rw [hh.document]
  have hmap := document_mapOpenStep (hh.isOpen h) hitems
    (·.addInlineTable ((Table.empty t.lineNo).addHeaders cells))
  have hcurrent : b'.place.current = b.place.current := by rw [hh.place]
  have haccept : accept files b' t =
      { b'.mapOpenStep (·.addInlineTable ((Table.empty t.lineNo).addHeaders cells)) with
        place := { b'.place with tableOpen := true } } := by
    rw [accept, ht]
    cases hs : b.place.current with
    | preamble => exact absurd hs (ne_preamble h)
    | scenario | context => simp [tableHeader, hh.place, hs, mapOpenStep, edit]
    | tearDown =>
      have hopen := hh.isOpen h
      rw [hcurrent, hs] at hopen
      have hsome := latestTearDownStep?_isSome hopen hitems
      simp [tableHeader, hh.place, hs, mapOpenStep, edit, hsome]
  rw [haccept]
  refine ⟨hmap.trans ?_, ?_, hh.diagnostics⟩
  · rw [hh.document]
    rfl
  · simp [hh.place]

theorem Holds.row {b' : Builder} {table : Table} {row : List Cell}
    (hh : Holds slot b (s.addInlineTable table) true b') (h : slot.IsOpen b.place.current)
    (hb : b.document.items = slot.fill []) (hf : b.frame.names = names)
    (hrow : Row.isSeparator (row.map Cell.written) = false)
    (hk : ∀ cell ∈ row, cell.Kept files names) {t : Token} {text : Text}
    (ht : t.content = .tableRow text (row.map Cell.written)) :
    Holds slot b (s.addInlineTable (table.addRow row)) true (accept files b' t) := by
  have hitems : b'.document.items = slot.fill [.step (.ofStep (s.addInlineTable table))] := by
    rw [hh.document]
  have hread : t.readRow b'.frame files (row.map Cell.written) = (row, []) :=
    t.readRow_written hk ((hh.frame_names hb).trans hf)
  have haccept : accept files b' t = (b'.report []).mapOpenStep (·.addInlineRow row) := by
    have htakes : (b'.place.stepOpen || b'.place.current == .tearDown) = true := by
      rw [hh.place]
      cases b.place.current <;> rfl
    rw [accept, ht]
    simp only [tableRow, hrow, htakes, hread]
    simp [hh.place]
  have hmap := document_mapOpenStep (b := b'.report []) (hh.isOpen h) hitems (·.addInlineRow row)
  rw [haccept]
  refine ⟨hmap.trans ?_, hh.place, (List.append_nil _).trans hh.diagnostics⟩
  rw [show (b'.report []).document = b'.document from rfl, hh.document, StepTree.ofStep,
    StepTree.mapStep, Step.addInlineRow_addInlineTable]
  rfl

theorem Holds.grown {b' : Builder} {tableOpen : Bool} {tree : StepTree} (w : Trail)
    (hh : Holds slot b s tableOpen b') (hs : s.bare = tree.step.bare) :
    Grown slot w (.step tree) b b' := by
  refine ⟨⟨.step (.ofStep s), ?_, hh.document⟩, by rw [hh.place], fun _ => ?_, fun hc => ?_⟩
  · rw [Item.bare, Item.bare, ← hs]
    rfl
  · rw [Item.trail]
    rfl
  · rwa [hh.diagnostics]

/-- **The tokens of a step rebuild the step**, with what stands below it. -/
theorem grown_step {tree : StepTree} (w : Trail) (h : slot.IsOpen b.place.current)
    (hb : b.document.items = slot.fill []) (hw : tree.step.Writable files names)
    (hf : b.frame.names = names) (hts : Item.ReadAs w (.step tree) ts) :
    Grown slot w (.step tree) b (ts.foldl (accept files) b) := by
  rw [Item.ReadAs, Step.contents] at hts
  obtain ⟨t, ts, rfl, ht, hts⟩ := List.map_eq_cons_iff.1 hts
  have hstep := holds_step h hb hw hf ht
  have hshape := hw.shape
  rw [List.foldl_cons]
  cases htable : tree.step.table? with
  | none =>
    rw [htable] at hts hshape
    obtain rfl : ts = [] := List.map_eq_nil_iff.1 hts
    exact hstep.grown w (congrArg Step.bare hshape).symm
  | some table =>
    rw [htable] at hts hshape
    obtain ⟨ht, hk⟩ := hw.table table htable
    obtain ⟨t', ts, rfl, ht', hts⟩ := List.map_eq_cons_iff.1 hts
    have hkept : ∀ row ∈ table.rows, ∀ cell ∈ row, cell.Kept files names := by
      intro row hrow cell hcell
      rcases Table.mem_cells_of_mem_row hrow hcell with hmem | rfl
      · exact hk cell hmem
      · rfl
    have hheader : Holds slot b
        (((tree.step.line.withBlock tree.step.block?).placed t).addInlineTable
          ((Table.empty t'.lineNo).addHeaders table.headers)) true
        (accept files (accept files b t) t') := hstep.header h ht'
    have hrows := foldl_rows
      (F := fun table => Holds slot b
        (((tree.step.line.withBlock tree.step.block?).placed t).addInlineTable table) true)
      ht t'.lineNo
      (fun table b' token text cells hh htoken hsep => by
        rwa [accept_dashes (by rw [hh.place]) htoken hsep])
      (fun row hrow table b' token text hh htoken =>
        hh.row h hb hf (ht.rows row hrow) (hkept row hrow) htoken)
      hheader hts
    refine hrows.grown w ((congrArg Step.bare hshape).trans ?_).symm
    simp [Step.withTable, Step.addInlineTable, Step.pushTrailing, Step.bare, Step.placed, Arg.bare,
      Table.bare]

end Builder

end ScenarioBook
