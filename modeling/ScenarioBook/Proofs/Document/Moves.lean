import ScenarioBook.Proofs.Document.Entry

/-!
# Where a token goes

`Builder.Moves` lists what a token can do to the lines of the document, whether or not it reports an
error: the lines stay as they are, the token becomes an item at the end of the open part, or it
opens a part. `Builder.moves_accept` says that the list is complete, and `Builder.Filing` what each
entry keeps: the open scenario is the last item, a heading was read exactly if the preamble is over,
and the items stand in the order in which their tokens came.
-/

set_option autoImplicit false

namespace ScenarioBook

namespace Item

/-- The line that an item starts on. -/
def lineNo : Item → Nat
  | .comment c => c.lineNo
  | .step tree => tree.step.lineNo
  | .tags ts => ts.lineNo
  | .dataTable data => data.table.lineNo
  | .scenario heading _ => heading.lineNo
  | .tearDown marker => marker.lineNo

/-- The lines that an item and the items in it start on. -/
def lines (i : Item) : List Nat := i.flat.map lineNo

theorem lineNo_mapStep? {f : StepTree → StepTree} (hf : ∀ tree, (f tree).step.lineNo =
    tree.step.lineNo) {i i' : Item} (h : i.mapStep? f = some i') : i'.lineNo = i.lineNo := by
  cases i <;> cases h
  exact hf _

theorem lines_mapStep? {f : StepTree → StepTree} (hf : ∀ tree, (f tree).step.lineNo =
    tree.step.lineNo) {i i' : Item} (h : i.mapStep? f = some i') : i'.lines = i.lines := by
  cases i <;> cases h
  exact congrArg (fun no => [no]) (hf _)

end Item

theorem Table.lineNo_addHeaders (table : Table) (headers : List Text) :
    (table.addHeaders headers).lineNo = table.lineNo := by
  induction headers generalizing table with
  | nil => rfl
  | cons header headers ih =>
    refine (ih (table.addHeader header)).trans ?_
    unfold Table.addHeader
    split <;> rfl

namespace Document

variable {d : Document}

/-- The lines of all items, in the order of the document. -/
def lines (d : Document) : List Nat := d.flat.map Item.lineNo

theorem lines_eq (d : Document) : d.lines = (d.items.map Item.lines).flatten := by
  rw [lines, flat, List.map_flatMap, ← List.flatMap_def]
  rfl

theorem lines_addItem (d : Document) (i : Item) : (d.addItem i).lines = d.lines ++ i.lines := by
  simp [lines_eq, addItem]

theorem lines_mapDataTable {f : Table → Table} (hf : ∀ table, (f table).lineNo = table.lineNo) :
    (d.mapDataTable f).items.map Item.lines = d.items.map Item.lines := by
  refine map_updateFirst fun i i' h => ?_
  cases i <;> cases h
  exact congrArg (fun no => [no]) (hf _)

end Document

namespace Builder

/-- What a token can do to the lines of the document. -/
inductive Moves (b : Builder) (t : Token) : Builder → Prop
  | stay {b' : Builder}
      (hlines : b'.document.items.map Item.lines = b.document.items.map Item.lines)
      (hkinds : b'.document.items.map Item.kind = b.document.items.map Item.kind)
      (hheading : b'.document.heading = b.document.heading)
      (hp : b'.place.current = b.place.current) : Moves b t b'
  | add {b' : Builder} {i : Item} (hd : b'.document = (b.add i).document)
      (hi : i.lineNo = t.lineNo) (hscenario : i.scenario? = none)
      (hp : b'.place.current = b.place.current) : Moves b t b'
  | heading {b' : Builder} (hitems : b'.document.items = b.document.items)
      (hheading : b'.document.heading.isSome) (hp : b'.place.current = .context) : Moves b t b'
  | scenario {b' : Builder} {heading : Heading} (hsome : b.document.heading.isSome)
      (hd : b'.document = b.document.addItem (.scenario heading []))
      (hi : heading.lineNo = t.lineNo) (hp : b'.place.current = .scenario) : Moves b t b'
  | tearDown {b' : Builder} {marker : Text}
      (hd : b'.document = b.document.addItem (.tearDown ⟨marker, t.lineNo⟩))
      (hp : b'.place.current = if b.place.current = .preamble then .preamble else .tearDown) :
      Moves b t b'

section
variable {files : FileSource} {b b' : Builder} {t : Token} {seen : List Token}

/-! ## One lemma for each kind of token -/

theorem moves_report (found : List Diagnostic) : b.Moves t (b.report found) :=
  .stay rfl rfl rfl rfl

theorem moves_keep (found : List Diagnostic) (p : Place) (hp : p.current = b.place.current) :
    b.Moves t { (b.report found).keep t with place := p } :=
  .add (i := .comment ⟨t.asComment, t.lineNo⟩) rfl rfl rfl hp

theorem moves_comment : b.Moves t (b.comment t) := by
  have h := moves_keep (b := b) (t := t) [] ⟨b.place.current, false, false⟩ rfl
  rwa [report_nil] at h

theorem moves_ignore (p : Problem) : b.Moves t (b.ignore t p) := moves_keep _ b.place rfl

theorem moves_specHeading (title : Text) : b.Moves t (b.specHeading t title) := by
  unfold specHeading
  split
  case isTrue => exact moves_report _
  case isFalse => exact .heading rfl rfl rfl

theorem moves_scenarioHeading (title : Text) : b.Moves t (b.scenarioHeading t title) := by
  unfold scenarioHeading
  split
  case isTrue => exact moves_report _
  case isFalse hsome =>
    split
    case h_1 => exact moves_report _
    case h_2 => exact .scenario (by simpa [Option.isSome_iff_ne_none] using hsome) rfl rfl rfl

theorem lineNo_readStep (frame : Frame) (value : Text) (args : List RawArg)
    (block : Option Text) : (t.readStep frame files value args block).1.lineNo = t.lineNo := by
  unfold Token.readStep
  split
  · rfl
  · split <;> rfl

theorem moves_step (value : Text) (args : List RawArg) (block : Option Text) :
    b.Moves t (b.step files t value args block) := by
  unfold step
  split
  case isTrue => exact .stay rfl rfl rfl rfl
  case isFalse =>
    exact .add (i := .step (.ofStep (t.readStep b.frame files value args block).1)) rfl
      (lineNo_readStep _ _ _ _) rfl rfl

/-- A change of the open step keeps its line. -/
theorem moves_mapOpenStep {f : Step → Step} (hd : b'.document = (b.mapOpenStep f).document)
    (hp : b'.place.current = b.place.current) (hf : ∀ s, (f s).lineNo = s.lineNo) :
    b.Moves t b' := by
  have htree : ∀ tree : StepTree, (tree.mapStep f).step.lineNo = tree.step.lineNo := by
    intro tree
    rw [Entry.step_mapStep, hf]
  refine .stay ?_ (hd ▸ (sameShape_mapOpenStep b f).kinds) (hd ▸ b.heading_mapOpenStep f) hp
  simp only [hd, mapOpenStep, edit]
  split
  case h_1 =>
    refine map_updateLast fun i i' h => ?_
    cases i <;> cases h
    simp only [Item.lines, Item.flat, List.map_cons, Item.lineNo,
      map_updateLast fun _ _ => Item.lineNo_mapStep? htree]
  case h_2 =>
    rw [Document.mapLatestTearDownStep, List.map_append,
      map_updateLast fun _ _ => Item.lines_mapStep? htree, ← List.map_append,
      Document.body_append_afterBody]
  case h_3 =>
    rw [Document.mapLatestContext, List.map_append,
      map_updateLast fun _ _ => Item.lines_mapStep? htree, ← List.map_append,
      Document.body_append_afterBody]

theorem moves_tableHeader (cells : List Text) : b.Moves t (b.tableHeader t cells) := by
  unfold tableHeader
  simp only
  split
  case h_1 => exact moves_comment
  case h_2 =>
    split
    · exact moves_mapOpenStep rfl rfl fun _ => rfl
    · exact moves_ignore _
  case h_3 =>
    split
    · exact moves_mapOpenStep rfl rfl fun _ => rfl
    · exact moves_comment
  case h_4 hp =>
    split
    · exact moves_mapOpenStep rfl rfl fun _ => rfl
    · split
      · refine .add (i := .dataTable ⟨(Table.empty t.lineNo).addHeaders cells, none⟩) ?_ ?_ rfl rfl
        · rw [add_of_ne_scenario (by rw [hp]; decide)]
        · exact (Table.empty t.lineNo).lineNo_addHeaders cells
      · exact moves_ignore _

theorem moves_tableRow (cells : List Text) : b.Moves t (b.tableRow files t cells) := by
  unfold tableRow
  split
  case isTrue => exact moves_comment
  case isFalse =>
    split
    case isTrue => exact .stay rfl rfl rfl rfl
    case isFalse =>
      split
      case isTrue => exact moves_mapOpenStep rfl rfl fun s => Step.lineNo_addInlineRow s _
      case isFalse =>
        exact .stay (Document.lines_mapDataTable fun _ => rfl)
          (Document.sameShape_mapDataTable _).kinds rfl rfl

theorem moves_tags (values : List Text) : b.Moves t (b.tags t values) := by
  have hignore : ∀ p : Problem, b.Moves t (b.ignore t p).close := fun p => moves_keep _ _ rfl
  have hadd : b.Moves t (b.add (.tags ⟨values, t.lineNo⟩)).close := .add rfl rfl rfl rfl
  unfold tags
  simp only
  split
  · split
    · exact hignore _
    · exact hadd
  · split
    · exact hignore _
    · exact hadd

theorem moves_dataTable (path : Text) : b.Moves t (b.dataTable files t path) := by
  unfold dataTable
  cases Reference.dataTable files path with
  | error fault => exact moves_report _
  | ok table =>
    simp only
    split
    case isTrue => exact moves_ignore _
    case isFalse hp =>
      split
      case isTrue => exact moves_ignore _
      case isFalse =>
        refine .add (i := .dataTable ⟨{ table with lineNo := t.lineNo }, some path⟩) ?_ rfl rfl rfl
        rw [add_of_ne_scenario fun hs => hp (.inr hs)]

/-- **The list is complete.** -/
theorem moves_accept : b.Moves t (b.accept files t) := by
  unfold accept
  split
  case h_1 title _ => exact moves_specHeading title
  case h_2 title _ => exact moves_scenarioHeading title
  case h_3 value args block _ => exact moves_step value args block
  case h_4 => exact moves_comment
  case h_5 row cells _ => exact moves_tableHeader cells
  case h_6 row cells _ => exact moves_tableRow cells
  case h_7 text values _ => exact moves_tags values
  case h_8 path _ => exact moves_dataTable path
  case h_9 marker _ => exact .tearDown rfl rfl

/-- What a token does without an error is in the list as well. -/
theorem Accepts.moves (ha : b.Accepts files t b') : b.Moves t b' := by
  cases ha with
  | heading => exact .heading rfl rfl rfl
  | scenario hc hsome => exact .scenario (Option.isSome_iff_ne_none.2 hsome) rfl rfl rfl
  | early | separator => exact .stay rfl rfl rfl rfl
  | step => exact .add (i := .step _) rfl (lineNo_readStep _ _ _ _) rfl rfl
  | @kept found place hk hplace =>
    refine moves_keep found place ?_
    rcases hplace with rfl | rfl <;> rfl
  | attach => exact moves_mapOpenStep rfl rfl fun _ => rfl
  | @openData row cells hc hp =>
    refine .add (i := .dataTable ⟨(Table.empty t.lineNo).addHeaders cells, none⟩) ?_ ?_ rfl rfl
    · rw [add_of_ne_scenario (by rw [hp]; decide)]
    · exact (Table.empty t.lineNo).lineNo_addHeaders cells
  | row => exact moves_mapOpenStep rfl rfl fun s => Step.lineNo_addInlineRow s _
  | dataRow =>
    exact .stay (Document.lines_mapDataTable fun _ => rfl)
      (Document.sameShape_mapDataTable _).kinds rfl rfl
  | tags => exact .add rfl rfl rfl rfl
  | @reference path table hc href hp =>
    refine .add (i := .dataTable ⟨{ table with lineNo := t.lineNo }, some path⟩) ?_ rfl rfl rfl
    rw [add_of_ne_scenario fun hs => by rcases hp with hp | hp <;> rw [hs] at hp <;> cases hp]
  | tearDown => exact .tearDown rfl rfl

/-! ## What a token keeps -/

/-- The open scenario is the last item, the preamble ends with the heading, and the items stand in
the order of the tokens that were seen. -/
structure Filing (seen : List Token) (b : Builder) : Prop where
  inScenario : b.place.current = .scenario →
    ∃ before heading items, b.document.items = before ++ [.scenario heading items]
  headed : b.document.heading.isSome ↔ b.place.current ≠ .preamble
  lines : b.document.lines.Sublist (seen.map Token.lineNo)

theorem filing_start (fileName : Text) : (start fileName).Filing [] where
  inScenario h := by cases h
  headed := by simp [start, Document.empty]
  lines := List.nil_sublist _

/-- Whether a step or a table is open does not matter to the lines. -/
theorem Filing.placed_close (h : b.Filing seen) : b.close.Placed :=
  .of_closed (b := b) rfl rfl h.inScenario

/-- A new item is the last line. -/
theorem Filing.lines_add (h : b.Filing seen) {i : Item} (hi : i.scenario? = none) :
    (b.add i).document.lines = b.document.lines ++ [i.lineNo] := by
  have hflat : (b.add i).document.flat = b.document.flat ++ [i] := flat_add h.placed_close hi
  rw [Document.lines, hflat, List.map_append]
  rfl

/-- The last item stays a scenario when no kind changes. -/
theorem inScenario_of_kinds {items items' before : List Item} {heading : Heading}
    {inner : List Item} (hkinds : items'.map Item.kind = items.map Item.kind)
    (h : items = before ++ [.scenario heading inner]) :
    ∃ before' heading' inner', items' = before' ++ [.scenario heading' inner'] := by
  rw [h, List.map_append, List.map_singleton] at hkinds
  obtain ⟨before', last, rfl, -, hlast⟩ := List.map_eq_append_iff.1 hkinds
  obtain ⟨i, rfl, hi⟩ := List.map_eq_singleton_iff.1 hlast
  cases i with
  | scenario heading' inner' => exact ⟨before', heading', inner', rfl⟩
  | _ => cases hi

/-- **One token keeps the items filed in order.** -/
theorem Filing.moves (h : b.Filing seen) (hm : b.Moves t b') : b'.Filing (seen ++ [t]) := by
  have hseen : (seen ++ [t]).map Token.lineNo = seen.map Token.lineNo ++ [t.lineNo] :=
    List.map_append
  have hlater := h.lines.trans (List.sublist_append_left _ [t.lineNo])
  cases hm with
  | stay hlines hkinds hheading hp =>
    refine ⟨fun hs => ?_, by rw [hheading, hp]; exact h.headed, ?_⟩
    · obtain ⟨before, heading, items, hitems⟩ := h.inScenario (hp ▸ hs)
      exact inScenario_of_kinds hkinds hitems
    · rw [Document.lines_eq, hlines, ← Document.lines_eq, hseen]
      exact hlater
  | @add i hd hi hscenario hp =>
    refine ⟨fun hs => ?_, ?_, ?_⟩
    · rw [hd]
      exact inScenario_add h.placed_close i (hp ▸ hs)
    · rw [hd, heading_add, hp]
      exact h.headed
    · rw [hd, h.lines_add hscenario, hi, hseen]
      exact h.lines.append (List.Sublist.refl _)
  | heading hitems hheading hp =>
    refine ⟨fun hs => absurd (hp.symm.trans hs) (by decide), by simp [hheading, hp], ?_⟩
    rw [Document.lines, Document.flat, hitems, hseen]
    exact hlater
  | @scenario heading hsome hd hi hp =>
    refine ⟨fun _ => ⟨b.document.items, heading, [], by rw [hd]; rfl⟩, ?_, ?_⟩
    · simp [hd, Document.addItem, hsome, hp]
    · rw [hd, Document.lines_addItem, hseen, ← hi]
      exact h.lines.append (List.Sublist.refl _)
  | @tearDown marker hd hp =>
    refine ⟨fun hs => ?_, ?_, ?_⟩
    · rw [hp] at hs
      split at hs <;> cases hs
    · rw [hd, hp]
      split
      case isTrue hpre => simpa [Document.addItem, hpre] using h.headed
      case isFalse hpre => simpa [Document.addItem, hpre] using h.headed
    · rw [hd, Document.lines_addItem, hseen]
      exact h.lines.append (List.Sublist.refl _)

end

theorem Filing.accepts {files : FileSource} {seen : List Token} {b b' : Builder} {t : Token}
    (h : b.Filing seen) (ha : b.Accepts files t b') : b'.Filing (seen ++ [t]) := h.moves ha.moves

/-- **The items are filed in order after any tokens**, also where errors were reported. -/
theorem filing_foldl (files : FileSource) (fileName : Text) (seen : List Token) :
    (seen.foldl (accept files) (start fileName)).Filing seen := by
  induction seen using List.reverseRecOn with
  | nil => exact filing_start fileName
  | append_singleton seen t ih =>
    rw [List.foldl_append, List.foldl_cons, List.foldl_nil]
    exact ih.moves moves_accept

end Builder

end ScenarioBook
