import ScenarioBook.Proofs.ConceptFile.Tokens
import ScenarioBook.Proofs.Layout.RoundTrip

/-!
# Rebuilding the items of a concept

The bare form of a concept is the concept without its places in the source; a layout writes the two
alike (`concept_bare`). The tokens of a written step rebuild the step with its table (`foldl_step`):
it does not call its concept, as it did not when it was read first (`Avoids.value_ne`). The token of
a comment that fits is kept as a comment again (`accept_comment`).
-/

set_option autoImplicit false

namespace ScenarioBook

/-! ## Concepts without their places -/

def Comment.bare (c : Comment) : Comment := { c with lineNo := 0 }

def ConceptItem.bare : ConceptItem → ConceptItem
  | comment c => .comment c.bare
  | step s => .step s.bare

/-- The concept without its places in the source. -/
def Concept.bare (c : Concept) : Concept where
  fileName := []
  heading := c.heading.bare
  formals := c.formals
  items := c.items.map ConceptItem.bare
  preComments := c.preComments.map Comment.bare

namespace ConceptItem

theorem toItem_bare (i : ConceptItem) : i.bare.toItem = i.toItem.bare := by
  cases i with
  | comment c => rw [toItem, Item.bare]; rfl
  | step s => rw [toItem, Item.bare]; rfl

theorem toItem_injective : Function.Injective toItem := by
  intro i j h
  cases i <;> cases j <;> cases h <;> rfl

theorem step?_bare (i : ConceptItem) : i.bare.step? = i.step?.map Step.bare := by
  cases i <;> rfl

end ConceptItem

theorem Concept.steps_bare (c : Concept) : c.bare.steps = c.steps.map Step.bare := by
  rw [steps, steps, bare, List.filterMap_map, List.map_filterMap]
  exact congrArg (List.filterMap · c.items) (funext ConceptItem.step?_bare)

namespace Layout

theorem parameterizedText_bare (s : Step) : s.bare.parameterizedText = s.parameterizedText := by
  have hfragments : s.bare.fragments = s.fragments.map Fragment.bare := Step.weave_bare _ _
  rw [Step.parameterizedText, Step.parameterizedText, hfragments, List.flatMap_map]
  congr 2
  funext f
  cases f with
  | text => rfl
  | param arg => cases arg <;> rfl

/-- **A layout does not look at the places of a concept.** -/
theorem concept_bare (lay : Layout) (c : Concept) : lay.concept c.bare = lay.concept c := by
  have hitems : c.bare.items.map ConceptItem.toItem =
      bareAll (c.items.map ConceptItem.toItem) := by
    rw [bareAll_eq_map, Concept.bare, List.map_map, List.map_map]
    exact List.map_congr_left fun i _ => i.toItem_bare
  rw [concept, concept, hitems, lay.allItems_bare, Concept.bare, parameterizedText_bare,
    List.flatMap_map]
  rfl

end Layout

/-! ## Steps -/

namespace Step

/-- Tables below a step can be taken off again. If `read` has none, at most one was put there. -/
theorem value_eq_of_foldl {own read : Step} {tables : List Table} {table : Option Table}
    (hown : own.hasInlineTable = false) (hflag : read.hasInlineTable = false)
    (hread : ∀ t : Table, .table t ∉ read.args)
    (h : tables.foldl addInlineTable own = read.withTable table) : read.value = own.value := by
  cases tables using List.reverseRecOn with
  | nil =>
    cases table with
    | none => exact congrArg value h.symm
    | some t => exact (Bool.false_ne_true (hown.symm.trans (congrArg hasInlineTable h))).elim
  | append_singleton tables last =>
    rw [List.foldl_append] at h
    cases table with
    | none => exact (Bool.false_ne_true (hflag.symm.trans (congrArg hasInlineTable h.symm))).elim
    | some t =>
      have hvalue := List.append_cancel_right (congrArg value h)
      have hargs := List.append_inj_left' (congrArg args h) rfl
      cases tables using List.reverseRecOn with
      | nil => exact hvalue.symm
      | append_singleton tables second =>
        refine absurd ?_ (hread second)
        rw [← hargs, List.foldl_append]
        exact List.mem_append_right _ (List.mem_singleton_self _)

/-- A step that avoids a value does so by the line and the block that it is written with. -/
theorem Avoids.value_ne {files : FileSource} {names : List Text} {called : Text} {s : Step}
    (h : s.Avoids called) (hw : s.Writable files names) :
    (s.line.withBlock s.block?).value ≠ called := by
  obtain ⟨own, tables, hs, hown, hother⟩ := h
  have hflag : (s.line.withBlock s.block?).hasInlineTable = false := by
    cases s.block? <;> exact hw.flag
  have hread : ∀ t : Table, .table t ∉ (s.line.withBlock s.block?).args := by
    intro t ht
    cases hb : s.block? with
    | none =>
      rw [hb] at ht
      exact (hw.args _ ht).1
    | some contents =>
      rw [hb, withBlock, pushTrailing, List.mem_append] at ht
      rcases ht with ht | ht
      · exact (hw.args _ ht).1
      · cases List.mem_singleton.1 ht
  rw [value_eq_of_foldl hown hflag hread (hs.symm.trans hw.shape)]
  exact hother

end Step

namespace ConceptBuilder

variable {b : ConceptBuilder} {t : Token} {files : FileSource} {names : List Text} {c : Concept}
  {tok : Token} {s : Step} {ts : List Token}

/-- The open concept with one more step, which can take what the focus says. -/
def withStep (b : ConceptBuilder) (s : Step) (focus : Focus) : ConceptBuilder :=
  { b.mapCurrent (·.addItem (.step s)) with focus := focus }

theorem withStep_of_some (h : b.current = some (c, tok)) (s : Step) (focus : Focus) :
    b.withStep s focus = { b with current := some (c.addItem (.step s), tok), focus := focus } := by
  rw [withStep, mapCurrent_of_some h]

theorem report_nil (b : ConceptBuilder) : b.report [] = b := by rw [report, List.append_nil]

theorem mapLatestStep_addStep (c : Concept) (s : Step) (f : Step → Step) :
    (c.addItem (.step s)).mapLatestStep f = c.addItem (.step (f s)) := by
  have hupdate : updateLast (ConceptItem.mapStep? f) (c.items ++ [.step s]) =
      c.items ++ [.step (f s)] := updateLast_concat rfl
  simp only [Concept.mapLatestStep, Concept.addItem, hupdate]

theorem accept_step (hcur : b.current = some (c, tok)) (hf : c.formals.names = names)
    (hw : s.Writable files names) (hother : (s.line.withBlock s.block?).value ≠ c.signature)
    (ht : t.content = .step s.line.value (s.line.args.filterMap Arg.raw?) s.block?) :
    accept files b t = b.withStep ((s.line.withBlock s.block?).placed t) .step := by
  have hvalue : ((s.line.withBlock s.block?).placed t).value ≠ c.signature := hother
  rw [accept, ht]
  simp only [step, hcur, t.readStep_contents hw hf]
  rw [if_neg (by simpa using hvalue), List.append_nil, report_nil]
  rfl

theorem accept_header (hcur : b.current = some (c, tok)) {focus : Focus} (hfocus : focus ≠ .nothing)
    {text : Text} {cells : List Text} (ht : t.content = .tableHeader text cells) :
    accept files (b.withStep s focus) t =
      b.withStep (s.addInlineTable ((Table.empty t.lineNo).addHeaders cells)) .table := by
  rw [accept, ht, withStep_of_some hcur, withStep_of_some hcur]
  simp only [tableHeader, Option.isSome_some, hfocus, ne_eq, not_false_eq_true, and_self, if_true,
    mapCurrent, Option.map_some, mapLatestStep_addStep]

theorem accept_row (hcur : b.current = some (c, tok)) (hf : c.formals.names = names)
    {table : Table} {row : List Cell} (hrow : Row.isSeparator (row.map Cell.written) = false)
    (hk : ∀ cell ∈ row, cell.Kept files names) {text : Text}
    (ht : t.content = .tableRow text (row.map Cell.written)) :
    accept files (b.withStep (s.addInlineTable table) .table) t =
      b.withStep (s.addInlineTable (table.addRow row)) .table := by
  have hread : t.readRow (c.addItem (.step (s.addInlineTable table))).formals files
      (row.map Cell.written) = (row, []) := t.readRow_written hk hf
  rw [accept, ht, withStep_of_some hcur, withStep_of_some hcur]
  simp only [tableRow, hrow, hread, if_true, report_nil, mapCurrent, Option.map_some,
    mapLatestStep_addStep, Step.addInlineRow_addInlineTable, Bool.false_eq_true, if_false]

theorem accept_separator {text : Text} {cells : List Text} (ht : t.content = .tableRow text cells)
    (hsep : Row.isSeparator cells) : accept files b t = b := by
  rw [accept, ht]
  exact if_pos hsep

/-- **The tokens of a step rebuild the step**, with what stands below it. -/
theorem foldl_step (hcur : b.current = some (c, tok)) (hf : c.formals.names = names)
    (hw : s.Writable files names) (hother : s.Avoids c.signature)
    (hts : ts.map (·.content) = s.contents) :
    ∃ s' focus, s'.bare = s.bare ∧ ts.foldl (accept files) b = b.withStep s' focus := by
  rw [Step.contents] at hts
  obtain ⟨t, ts, rfl, ht, hts⟩ := List.map_eq_cons_iff.1 hts
  have hstep := accept_step hcur hf hw (hother.value_ne hw) ht
  have hshape := hw.shape
  rw [List.foldl_cons, hstep]
  cases htable : s.table? with
  | none =>
    rw [htable] at hts hshape
    obtain rfl : ts = [] := List.map_eq_nil_iff.1 hts
    exact ⟨(s.line.withBlock s.block?).placed t, .step, (congrArg Step.bare hshape).symm, rfl⟩
  | some table =>
    rw [htable] at hts hshape
    obtain ⟨htw, hk⟩ := hw.table table htable
    obtain ⟨t', ts, rfl, ht', hts⟩ := List.map_eq_cons_iff.1 hts
    have hkept : ∀ row ∈ table.rows, ∀ cell ∈ row, cell.Kept files names := by
      intro row hrow cell hcell
      rcases Table.mem_cells_of_mem_row hrow hcell with hmem | rfl
      · exact hk cell hmem
      · rfl
    have hheader : accept files (b.withStep ((s.line.withBlock s.block?).placed t) .step) t' =
        b.withStep (((s.line.withBlock s.block?).placed t).addInlineTable
          ((Table.empty t'.lineNo).addHeaders table.headers)) .table :=
      accept_header hcur (by decide) ht'
    have hrows := foldl_rows
      (F := fun table b' => b' = b.withStep
        (((s.line.withBlock s.block?).placed t).addInlineTable table) .table)
      htw t'.lineNo
      (fun table b' token text cells hb' htoken hsep => (accept_separator htoken hsep).trans hb')
      (fun row hrow table b' token text hb' htoken =>
        hb' ▸ accept_row hcur hf (htw.rows row hrow) (hkept row hrow) htoken)
      hheader hts
    refine ⟨_, _, ((congrArg Step.bare hshape).trans ?_).symm, hrows⟩
    simp [Step.withTable, Step.addInlineTable, Step.pushTrailing, Step.bare, Step.placed, Arg.bare,
      Table.bare]

/-! ## Comments -/

/-- The token of a comment that fits is kept again: a table line finds neither a step nor a
table. -/
theorem accept_comment {before : List Item} {comment : Comment}
    (h : comment.FitsInConcept before) (ht : t.content = comment.content (trailAfter before).mode)
    (hopen : b.current.isSome → b.focus = .table → ∃ prev ∈ before.getLast?, prev.step?.isSome) :
    accept files b t = b.comment t := by
  rw [accept, ht, Comment.content]
  cases hs : comment.shape with
  | tableLine =>
    obtain ⟨hmode, hprev, hsep⟩ := h.2 hs
    simp only [hmode, if_true, tableRow, hsep, Bool.false_eq_true, if_false]
    cases hcur : b.current with
    | none => rfl
    | some ct =>
      refine if_neg fun hfocus => ?_
      obtain ⟨prev, hmem, hsome⟩ := hopen (by rw [hcur]; rfl) hfocus
      have := hprev prev hmem
      rw [Option.isNone_iff_eq_none.1 this] at hsome
      cases hsome
  | _ => rfl

end ConceptBuilder

end ScenarioBook
