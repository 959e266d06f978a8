import ScenarioBook.Proofs.Document.Accept
import ScenarioBook.Proofs.Document.Kinds
import ScenarioBook.Proofs.Document.PerRow
import ScenarioBook.Proofs.Step.Tables

/-!
# The open step and the open table

Tables go to the step that is open, `Builder.openStep?`, and rows to the last table of that step or
to the data table. The builder does not store which step this is; it finds it again from the open
section each time. `Builder.Placed` says that it finds the right one: while a step can take tables
there is one, and while a table can take rows it is there. The only exception is a context step that
stands behind a teardown marker, because the marker came before the heading
(`Builder.Stranded`): the builder does not find it.

The items are compared in the order of their lines (`Document.flat`), in which an open step is one
place of the list, wherever it stands (`Builder.exists_mapOpenStep`).
-/

set_option autoImplicit false

namespace ScenarioBook

/-- The item as its lines stand: a scenario is its heading with its items behind it. -/
def Item.flat : Item → List Item
  | .scenario heading items => .scenario heading [] :: items
  | i => [i]

namespace Document

/-- All items in the order of their lines. -/
def flat (d : Document) : List Item := d.items.flatMap Item.flat

/-! ## The last step of a list -/

section
variable {items : List Item} {tree : StepTree} {f : StepTree → StepTree}

theorem exists_of_getLast?_steps (h : (items.filterMap Item.step?).getLast? = some tree)
    (f : StepTree → StepTree) :
    ∃ before after, items = before ++ .step tree :: after ∧
      updateLast (Item.mapStep? f) items = before ++ .step (f tree) :: after ∧
      ((updateLast (Item.mapStep? f) items).filterMap Item.step?).getLast? = some (f tree) := by
  obtain ⟨before, i, i', after, rfl, hstep, hi, hnil, hupd⟩ :=
    exists_updateLast_of_getLast? (Item.isSome_mapStep? f) h
  cases i <;> cases hstep
  cases hi
  refine ⟨before, after, rfl, hupd, ?_⟩
  simp [hupd, Item.step?, hnil]

end

end Document

/-- The data table is changed in its place. -/
theorem Document.exists_mapDataTable {d : Document} {data : DataTable}
    (h : d.dataTable? = some data) (f : Table → Table) :
    ∃ before after, d.flat = before ++ .dataTable data :: after ∧
      (d.mapDataTable f).flat =
        before ++ .dataTable { data with table := f data.table } :: after := by
  obtain ⟨before, i, i', after, hitems, hdata, hi, hupd⟩ :=
    exists_updateFirst_of_findSome? (Item.isSome_mapDataTable? f) h
  cases i <;> cases hdata
  cases hi
  refine ⟨before.flatMap Item.flat, after.flatMap Item.flat, ?_, ?_⟩
  · simp [Document.flat, hitems, Item.flat]
  · simp [Document.flat, Document.mapDataTable, hupd, Item.flat]

/-! ## The open step -/

namespace Builder

/-- The step that takes tables at this place. -/
def openStep? (b : Builder) : Option StepTree :=
  match b.place.current with
  | .scenario => b.document.latestScenario?.bind Scenario.latestStep?
  | .tearDown => b.document.latestTearDownStep?
  | _ => b.document.latestContext?

/-- The context steps stand behind a marker that came before the heading. -/
structure Stranded (b : Builder) : Prop where
  current : b.place.current = .context
  notFound : b.openStep? = none
  marked : b.document.tearDown?.isSome

/-- The open step and the open table are there. -/
structure Placed (b : Builder) : Prop where
  inScenario : b.place.current = .scenario →
    ∃ before heading items, b.document.items = before ++ [.scenario heading items]
  stepOpen : b.place.stepOpen = true → b.openStep?.isSome ∨ b.Stranded
  tableOpen : b.place.tableOpen = true → b.place.stepOpen = true ∨ b.place.current = .tearDown →
    (∃ tree, b.openStep? = some tree ∧ tree.step.inlineTable?.isSome) ∨ b.Stranded
  dataOpen : b.place.tableOpen = true → b.place.stepOpen = false → b.place.current ≠ .tearDown →
    b.place.current = .context ∧ ∃ table, b.document.dataTable? = some ⟨table, none⟩

section
variable {b b' : Builder} {t : Token} {files : FileSource} {f : Step → Step} {tree : StepTree}

/-- **The open step is changed in its place.** -/
theorem exists_mapOpenStep (h : b.openStep? = some tree) (f : Step → Step) :
    (∃ before after, b.document.flat = before ++ .step tree :: after ∧
      (b.mapOpenStep f).document.flat = before ++ .step (tree.mapStep f) :: after) ∧
    (b.mapOpenStep f).openStep? = some (tree.mapStep f) := by
  have hplace : (b.mapOpenStep f).place = b.place := rfl
  unfold openStep? at h ⊢
  rw [hplace]
  simp only [mapOpenStep, edit]
  cases hp : b.place.current with
  | scenario =>
    simp only [hp] at h ⊢
    obtain ⟨s, hs, hlast⟩ := Option.bind_eq_some_iff.1 h
    obtain ⟨before, after, hitems, hupd, hscenario⟩ :=
      Document.exists_mapLatestScenario hs (updateLast (Item.mapStep? (·.mapStep f)))
    obtain ⟨before', after', hsplit, hinner, hlatest⟩ :=
      Document.exists_of_getLast?_steps hlast (·.mapStep f)
    refine ⟨⟨before.flatMap Item.flat ++ .scenario s.heading [] :: before',
      after' ++ after.flatMap Item.flat, ?_, ?_⟩, ?_⟩
    · simp [Document.flat, hitems, hsplit, Item.flat]
    · simp [Document.flat, Document.mapLatestStep, hupd, hinner, Item.flat]
    · rw [Document.mapLatestStep, hscenario]
      exact hlatest
  | tearDown =>
    simp only [hp] at h ⊢
    obtain ⟨before, after, hsplit, hupd, hlatest⟩ :=
      Document.exists_of_getLast?_steps h (·.mapStep f)
    refine ⟨⟨b.document.body.flatMap Item.flat ++ before.flatMap Item.flat,
      after.flatMap Item.flat, ?_, ?_⟩, ?_⟩
    · rw [Document.flat, ← Document.body_append_afterBody, hsplit]
      simp [Item.flat]
    · rw [Document.flat, Document.mapLatestTearDownStep, hupd]
      simp [Item.flat]
    · rw [Document.latestTearDownStep?, Document.tearDownSteps,
        Document.afterBody_mapLatestTearDownStep, hlatest]
  | preamble | context =>
    simp only [hp] at h ⊢
    obtain ⟨before, after, hsplit, hupd, hlatest⟩ :=
      Document.exists_of_getLast?_steps h (·.mapStep f)
    refine ⟨⟨before.flatMap Item.flat,
      after.flatMap Item.flat ++ b.document.afterBody.flatMap Item.flat, ?_, ?_⟩, ?_⟩
    · rw [Document.flat, ← Document.body_append_afterBody, hsplit]
      simp [Item.flat]
    · rw [Document.flat, Document.mapLatestContext, hupd]
      simp [Item.flat]
    · rw [Document.latestContext?, Document.contexts, Document.body_mapLatestContext, hlatest]

/-- A step that is not found is not changed. -/
theorem mapOpenStep_of_stranded (h : b.Stranded) (f : Step → Step) : b.mapOpenStep f = b := by
  have hnone := h.notFound
  simp only [openStep?, h.current] at hnone
  have hdoc : b.document.mapLatestContext (·.mapStep f) = b.document := by
    rw [Document.mapLatestContext, updateLast_of_getLast? (Item.isSome_mapStep? _) hnone,
      Document.body_append_afterBody]
  simp only [mapOpenStep, edit, h.current, hdoc]

/-! ## New items -/

/-- The items after an item was added to the open scenario. -/
theorem items_add_of_scenario (hs : b.place.current = .scenario) {before items : List Item}
    {heading : Heading} (h : b.document.items = before ++ [.scenario heading items]) (i : Item) :
    (b.add i).document.items = before ++ [.scenario heading (items ++ [i])] := by
  rw [add_of_scenario hs]
  simp only [edit, Document.addToScenario, Document.mapLatestScenario, h]
  exact updateLast_concat rfl

/-- A new item comes last. -/
theorem flat_add (h : b.Placed) {i : Item} (hi : i.scenario? = none) :
    (b.add i).document.flat = b.document.flat ++ [i] := by
  by_cases hs : b.place.current = .scenario
  · obtain ⟨before, heading, items, hitems⟩ := h.inScenario hs
    rw [Document.flat, items_add_of_scenario hs hitems, Document.flat, hitems]
    simp [Item.flat]
  · rw [add_of_ne_scenario hs]
    simp only [edit, Document.flat, Document.addItem, List.flatMap_append]
    cases i with
    | scenario => cases hi
    | _ => rfl

theorem openStep?_add (h : b.Placed) {i : Item} (hi : i.step? = none) :
    (b.add i).openStep? = b.openStep? := by
  by_cases hs : b.place.current = .scenario
  · obtain ⟨before, heading, items, hitems⟩ := h.inScenario hs
    have hplace : (b.add i).place.current = .scenario := hs
    simp [openStep?, hs, hplace, Document.latestScenario?, Document.scenarios, hitems,
      items_add_of_scenario hs hitems, Item.scenario?, Scenario.latestStep?, Scenario.steps, hi]
  · rw [add_of_ne_scenario hs]
    have hplace : (b.edit (·.addItem i)).place.current = b.place.current := rfl
    unfold openStep?
    rw [hplace]
    cases hp : b.place.current with
    | scenario => exact absurd hp hs
    | tearDown => exact congrArg List.getLast? (Document.tearDownSteps_addItem_of_none hi)
    | preamble | context => exact congrArg List.getLast? (Document.contexts_addItem_of_none hi)

theorem dataTable?_add {data : DataTable} (h : b.document.dataTable? = some data) (i : Item) :
    (b.add i).document.dataTable? = some data := by
  by_cases hs : b.place.current = .scenario
  · rw [add_of_scenario hs]
    exact (Document.dataTable?_mapLatestScenario _).trans h
  · rw [add_of_ne_scenario hs]
    exact Document.dataTable?_addItem h i

theorem Stranded.add (h : b.Stranded) (hb : b.Placed) {i : Item} (hi : i.step? = none) :
    (b.add i).Stranded where
  current := h.current
  notFound := (openStep?_add hb hi).trans h.notFound
  marked := by
    rw [add_of_ne_scenario (by rw [h.current]; decide)]
    exact Document.isSome_tearDown?_addItem h.marked

theorem inScenario_add (h : b.Placed) (i : Item) (hs : b.place.current = .scenario) :
    ∃ before heading items, (b.add i).document.items = before ++ [.scenario heading items] := by
  obtain ⟨before, heading, items, hitems⟩ := h.inScenario hs
  exact ⟨before, heading, _, items_add_of_scenario hs hitems i⟩

theorem Placed.add (h : b.Placed) {i : Item} (hi : i.step? = none) : (b.add i).Placed where
  inScenario hs := inScenario_add h i hs
  stepOpen hst := (h.stepOpen hst).imp (fun hs => (openStep?_add h hi).symm ▸ hs) (·.add h hi)
  tableOpen ht hst := (h.tableOpen ht hst).imp (fun ⟨tree, htree, htable⟩ =>
    ⟨tree, (openStep?_add h hi).trans htree, htable⟩) (·.add h hi)
  dataOpen ht hst hp := by
    obtain ⟨hcur, table, htable⟩ := h.dataOpen ht hst hp
    exact ⟨hcur, table, dataTable?_add htable i⟩

theorem Placed.report (h : b.Placed) (found : List Diagnostic) : (b.report found).Placed where
  inScenario := h.inScenario
  stepOpen hst := (h.stepOpen hst).imp_right fun hs => ⟨hs.current, hs.notFound, hs.marked⟩
  tableOpen ht hst :=
    (h.tableOpen ht hst).imp_right fun hs => ⟨hs.current, hs.notFound, hs.marked⟩
  dataOpen := h.dataOpen

/-- Nothing is open at a place that was closed. -/
theorem Placed.of_closed {p : Place} (hst : p.stepOpen = false) (ht : p.tableOpen = false)
    (hs : p.current = .scenario →
      ∃ before heading items, b.document.items = before ++ [.scenario heading items]) :
    { b with place := p }.Placed where
  inScenario := hs
  stepOpen h := by rw [hst] at h; cases h
  tableOpen h := by rw [ht] at h; cases h
  dataOpen h := by rw [ht] at h; cases h

theorem inScenario_mapOpenStep (h : b.Placed) (f : Step → Step) (hs : b.place.current = .scenario) :
    ∃ before heading items, (b.mapOpenStep f).document.items =
      before ++ [.scenario heading items] := by
  obtain ⟨before, heading, items, hitems⟩ := h.inScenario hs
  refine ⟨before, heading, updateLast (Item.mapStep? (·.mapStep f)) items, ?_⟩
  simp only [mapOpenStep, edit, hs, Document.mapLatestStep, Document.mapLatestScenario, hitems]
  exact updateLast_concat rfl

/-- A new step is the open one, unless it stands behind a marker. -/
theorem openStep?_add_step (h : b.Placed)
    (hp : b.place.current = .scenario ∨ b.place.current = .context) (tree : StepTree) :
    (b.add (.step tree)).openStep?.isSome ∨ (b.add (.step tree)).Stranded := by
  have hplace : (b.add (.step tree)).place = b.place := rfl
  rcases hp with hs | hs
  · obtain ⟨before, heading, items, hitems⟩ := h.inScenario hs
    refine .inl ?_
    simp [openStep?, hplace, hs, Document.latestScenario?, Document.scenarios,
      items_add_of_scenario hs hitems, Item.scenario?, Scenario.latestStep?, Scenario.steps,
      Item.step?]
  · have hadd : b.add (.step tree) = b.edit (·.addItem (.step tree)) :=
      add_of_ne_scenario (by rw [hs]; decide)
    cases hm : b.document.tearDown? with
    | none =>
      refine .inl ?_
      simp only [openStep?, hs, hadd, edit, Document.latestContext?_addItem_step hm,
        Option.isSome_some]
    | some marker =>
      cases hopen : (b.add (.step tree)).openStep? with
      | some latest => exact .inl rfl
      | none =>
        refine .inr ⟨hs, hopen, ?_⟩
        rw [hadd]
        exact Document.isSome_tearDown?_addItem (by rw [hm]; rfl)

/-- Changing the open step so that a table is attached to it, or stays attached. -/
theorem Placed.mapOpenStep (h : b.Placed) {f : Step → Step} {p : Place}
    (hp : p.current = b.place.current)
    (hopen : (∃ tree, b.openStep? = some tree) ∨ b.Stranded)
    (hf : ∀ tree, b.openStep? = some tree → (f tree.step).inlineTable?.isSome)
    (hdata : p.tableOpen = true → p.stepOpen = false → p.current = .tearDown) :
    { b.mapOpenStep f with place := p }.Placed := by
  have hopen' : (∃ tree, { b.mapOpenStep f with place := p }.openStep? = some tree ∧
      tree.step.inlineTable?.isSome) ∨ { b.mapOpenStep f with place := p }.Stranded := by
    have hsame : { b.mapOpenStep f with place := p }.openStep? = (b.mapOpenStep f).openStep? := by
      have hplace : (b.mapOpenStep f).place.current = b.place.current := rfl
      simp only [openStep?, hplace, hp]
    rw [hsame]
    rcases hopen with ⟨tree, htree⟩ | hstr
    · refine .inl ⟨_, (exists_mapOpenStep htree f).2, ?_⟩
      have := hf tree htree
      cases tree <;> exact this
    · rw [mapOpenStep_of_stranded hstr] at hsame ⊢
      exact .inr ⟨hp.trans hstr.current, hsame.trans hstr.notFound, hstr.marked⟩
  refine ⟨fun hs => inScenario_mapOpenStep h f (hp ▸ hs), fun _ => ?_, fun _ _ => hopen',
    fun ht hs hne => absurd (hdata ht hs) hne⟩
  refine hopen'.imp_left fun hfound => ?_
  obtain ⟨tree, htree, -⟩ := hfound
  rw [htree]
  rfl

/-! ## One token -/

theorem placed_start (fileName : Text) : (start fileName).Placed :=
  .of_closed (b := start fileName) rfl rfl fun h => by cases h

/-- **One token keeps the open step and the open table in place.** -/
theorem Placed.accepts (h : b.Placed) (ha : b.Accepts files t b') : b'.Placed := by
  cases ha with
  | heading hc hnone =>
    exact .of_closed (b := b.edit _) rfl rfl fun hs => by cases hs
  | scenario hc hsome hnew =>
    exact .of_closed (b := b.edit _) rfl rfl fun _ => ⟨b.document.items, _, [], rfl⟩
  | early | separator => exact h
  | @step value args block hc hp =>
    refine ⟨inScenario_add h _, fun hst => ?_, fun ht => (by cases ht), fun ht => (by cases ht)⟩
    -- a step of the teardown is found without a flag
    have hcur : b.place.current = .scenario ∨ b.place.current = .context := by
      cases hcur : b.place.current with
      | preamble => exact absurd hcur hp
      | context => exact .inr rfl
      | scenario => exact .inl rfl
      | tearDown => simp [hcur] at hst
    exact (openStep?_add_step h hcur _).imp_right fun hs => ⟨hs.current, hs.notFound, hs.marked⟩
  | @kept found place hk hplace hnoted =>
    have hkeep : ((b.report found).keep t).Placed := (h.report found).add rfl
    rcases hplace with rfl | rfl
    · exact hkeep
    · exact .of_closed (b := (b.report found).keep t) rfl rfl hkeep.inScenario
  | attach hc hp hopen =>
    refine h.mapOpenStep rfl ?_ (fun tree _ => ?_) fun _ hst => ?_
    · rcases hopen with hst | ⟨hp, hsome⟩
      · exact (h.stepOpen hst).imp_left Option.isSome_iff_exists.1
      · refine .inl (Option.isSome_iff_exists.1 ?_)
        rwa [openStep?, hp]
    · rw [Step.inlineTable?_addInlineTable]
      rfl
    · rcases hopen with hst' | ⟨hp, -⟩
      · exact absurd (hst'.symm.trans hst) (by decide)
      · exact hp
  | @openData row cells hc hp hstep hnone =>
    refine ⟨fun hs => ?_, fun hst => ?_, fun _ hst => ?_, fun _ _ _ => ⟨hp, ?_⟩⟩
    · exact absurd (hp.symm.trans hs) (by decide)
    · exact absurd (hst.symm.trans hstep) (by decide)
    · rcases hst with hst | hs
      · exact absurd (hst.symm.trans hstep) (by decide)
      · exact absurd (hp.symm.trans hs) (by decide)
    · refine ⟨(Table.empty t.lineNo).addHeaders cells, ?_⟩
      simp only [edit, Document.dataTable?, Document.addItem, List.findSome?_append]
      rw [← Document.dataTable?, hnone]
      rfl
  | row hc hopen hsep hstep =>
    refine h.mapOpenStep (p := b.place) rfl ?_ (fun tree htree => ?_) fun _ hst => ?_
    · exact (h.tableOpen hopen hstep).imp_left (Exists.imp fun _ => And.left)
    · rcases h.tableOpen hopen hstep with ⟨tree', htree', htable⟩ | hstr
      · cases htree.symm.trans htree'
        exact Step.isSome_inlineTable?_addInlineRow htable _
      · exact absurd (htree.symm.trans hstr.notFound) (by simp)
    · exact hstep.resolve_left fun hst' => absurd (hst'.symm.trans hst) (by decide)
  | dataRow hc hopen hsep hstep hp =>
    obtain ⟨hcur, table, htable⟩ := h.dataOpen hopen hstep hp
    refine ⟨fun hs => ?_, fun hst => ?_, fun _ hst => ?_, fun _ _ _ => ⟨hcur, ?_⟩⟩
    · exact absurd (hcur.symm.trans hs) (by decide)
    · exact absurd (hst.symm.trans hstep) (by decide)
    · rcases hst with hst | hs
      · exact absurd (hst.symm.trans hstep) (by decide)
      · exact absurd hs hp
    · exact ⟨_, (Document.dataTable?_mapDataTable _).trans (by rw [htable]; rfl)⟩
  | tags hc hscenario hnone =>
    exact .of_closed (b := b.add _) rfl rfl (inScenario_add h _)
  | @reference path table hc href hp hnone =>
    have hs : b.place.current ≠ .scenario := by
      rcases hp with hp | hp <;> rw [hp] <;> decide
    have hadd := h.add (i := .dataTable ⟨{ table with lineNo := t.lineNo }, some path⟩) rfl
    rwa [add_of_ne_scenario hs] at hadd
  | tearDown hc =>
    refine .of_closed (b := b.edit _) rfl rfl fun hs => ?_
    dsimp only at hs
    split at hs <;> cases hs

end

end Builder

end ScenarioBook
