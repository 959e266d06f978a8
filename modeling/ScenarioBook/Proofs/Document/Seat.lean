import ScenarioBook.Proofs.Document.Order

/-!
# The line of the step that takes tables

The builder finds the open step anew for each table line. What it finds is told by its line:
`Builder.openLine?` is the line of the step that takes tables at this place, and
`Document.tearDownLine?` that of the last step of the teardown, which takes tables there whatever
stands between. A step token moves the one or the other to its own line
(`Builder.Accepts.seat_step`) and no other token moves either of them, except that it may close the
open step (`Builder.Accepts.seat`). A step on a line that takes no tables at this place
(`Builder.Hosts`) stays as it is (`Builder.Accepts.stepsAt`).
-/

set_option autoImplicit false

namespace ScenarioBook

namespace Item

/-- What decides whether an item is the last step of the teardown. -/
def seat (i : Item) : Bool × Option Nat := (i.isBody, i.step?.map (·.step.lineNo))

theorem seat_mapStep? {f : StepTree → StepTree} (hf : ∀ tree, (f tree).step.lineNo =
    tree.step.lineNo) {i i' : Item} (h : i.mapStep? f = some i') : i'.seat = i.seat := by
  cases i <;> cases h
  exact congrArg (fun no => (true, some no)) (hf _)

end Item

namespace Document

variable {d d' : Document}

/-- The steps that stand on a line. -/
def stepsAt (d : Document) (no : Nat) : List Step :=
  (d.steps.map StepTree.step).filter (·.lineNo == no)

/-- The line of the last step of the teardown. -/
def tearDownLine? (d : Document) : Option Nat := d.latestTearDownStep?.map (·.step.lineNo)

theorem stepsAt_congr (h : d'.steps = d.steps) (no : Nat) : d'.stepsAt no = d.stepsAt no := by
  rw [stepsAt, stepsAt, h]

theorem stepsAt_mapSteps {f : StepTree → StepTree} (hf : ∀ t, (f t).step = t.step) (no : Nat) :
    (d.mapSteps f).stepsAt no = d.stepsAt no := by
  rw [stepsAt, stepsAt, steps_mapSteps, List.map_map]
  exact congrArg _ (List.map_congr_left fun t _ => hf t)

theorem tearDownLine?_of_seats (h : d'.items.map Item.seat = d.items.map Item.seat) :
    d'.tearDownLine? = d.tearDownLine? := by
  have hline : ∀ d : Document, d.tearDownLine? =
      (((d.items.map Item.seat).dropWhile (·.1)).filterMap (·.2)).getLast? := by
    intro d
    rw [tearDownLine?, latestTearDownStep?, tearDownSteps, afterBody, List.dropWhile_map,
      List.filterMap_map, ← List.getLast?_map, List.map_filterMap]
    rfl
  rw [hline, hline, h]

theorem tearDownLine?_addItem {i : Item} (h : i.step? = none) :
    (d.addItem i).tearDownLine? = d.tearDownLine? := by
  rw [tearDownLine?, latestTearDownStep?, tearDownSteps_addItem_of_none h]
  rfl

theorem seats_mapLatestScenario (f : List Item → List Item) :
    (d.mapLatestScenario f).items.map Item.seat = d.items.map Item.seat := by
  refine map_updateLast fun i i' h => ?_
  cases i <;> cases h
  rfl

theorem seats_mapDataTable (f : Table → Table) :
    (d.mapDataTable f).items.map Item.seat = d.items.map Item.seat := by
  refine map_updateFirst fun i i' h => ?_
  cases i <;> cases h
  rfl

end Document

namespace Builder

open Document

/-- The line of the step that takes tables at this place. -/
def openLine? (b : Builder) : Option Nat := b.openStep?.map (·.step.lineNo)

section
variable {files : FileSource} {b b' : Builder} {t : Token} {no : Nat} {tree : StepTree}
  {f : Step → Step}

/-! ## Changing the open step -/

section
variable (hf : ∀ s, (f s).lineNo = s.lineNo)
include hf

theorem seats_mapOpenStep :
    (b.mapOpenStep f).document.items.map Item.seat = b.document.items.map Item.seat := by
  have htree : ∀ tree : StepTree, (tree.mapStep f).step.lineNo = tree.step.lineNo := by
    intro tree
    rw [Entry.step_mapStep, hf]
  simp only [mapOpenStep, edit]
  split
  case h_1 => exact seats_mapLatestScenario _
  case h_2 =>
    rw [mapLatestTearDownStep, List.map_append, map_updateLast fun _ _ => Item.seat_mapStep? htree,
      ← List.map_append, body_append_afterBody]
  case h_3 =>
    rw [mapLatestContext, List.map_append, map_updateLast fun _ _ => Item.seat_mapStep? htree,
      ← List.map_append, body_append_afterBody]

theorem openLine?_mapOpenStep (h : b.openStep? = some tree) :
    (b.mapOpenStep f).openLine? = b.openLine? := by
  rw [openLine?, openLine?, (exists_mapOpenStep h f).2, h, Option.map_some, Option.map_some,
    Entry.step_mapStep, hf]

omit hf in
/-- The open step is one of the steps, and it is changed in its place. -/
theorem exists_steps_mapOpenStep (h : b.openStep? = some tree) (f : Step → Step) :
    ∃ before after, b.document.steps.map StepTree.step = before ++ tree.step :: after ∧
      (b.mapOpenStep f).document.steps.map StepTree.step = before ++ f tree.step :: after := by
  obtain ⟨⟨before, after, hflat, hflat'⟩, -⟩ := exists_mapOpenStep h f
  refine ⟨(before.filterMap Item.step?).map StepTree.step,
    (after.filterMap Item.step?).map StepTree.step, ?_, ?_⟩
  · rw [steps_eq_flat, hflat, List.filterMap_append, List.map_append]
    rfl
  · rw [steps_eq_flat, hflat', List.filterMap_append, List.map_append]
    exact congrArg (fun s => _ ++ s :: _) (Entry.step_mapStep f tree)

/-- The only step on the line of the open step is the open one, and it is changed. -/
theorem stepsAt_mapOpenStep_of_eq (h : b.openStep? = some tree) (hno : tree.step.lineNo = no)
    {s : Step} (hs : b.document.stepsAt no = [s]) :
    (b.mapOpenStep f).document.stepsAt no = [f s] := by
  obtain ⟨before, after, hsteps, hsteps'⟩ := exists_steps_mapOpenStep h f
  have hline : (tree.step.lineNo == no) = true := beq_iff_eq.2 hno
  have hline' : ((f tree.step).lineNo == no) = true := (hf tree.step).symm ▸ hline
  simp only [stepsAt, hsteps, List.filter_append, List.filter_cons, hline, ite_true,
    List.append_eq_singleton_iff] at hs
  simp only [stepsAt, hsteps', List.filter_append, List.filter_cons, hline', ite_true]
  obtain ⟨hbefore, hcons⟩ | ⟨-, hnil⟩ := hs
  · obtain ⟨rfl, hafter⟩ := List.cons.inj hcons
    rw [hbefore, hafter]
    rfl
  · cases hnil

theorem stepsAt_mapOpenStep_of_ne (h : b.openStep? = some tree) (hno : tree.step.lineNo ≠ no) :
    (b.mapOpenStep f).document.stepsAt no = b.document.stepsAt no := by
  obtain ⟨before, after, hsteps, hsteps'⟩ := exists_steps_mapOpenStep h f
  have hline : (tree.step.lineNo == no) = false := beq_eq_false_iff_ne.2 hno
  have hline' : ((f tree.step).lineNo == no) = false := (hf tree.step).symm ▸ hline
  simp only [stepsAt, hsteps, hsteps', List.filter_append, List.filter_cons, hline, hline',
    Bool.false_eq_true, ite_false]

end

/-! ## One token -/

theorem tearDownLine?_add {i : Item} (hi : i.step? = none) :
    (b.add i).document.tearDownLine? = b.document.tearDownLine? := by
  by_cases hs : b.place.current = .scenario
  · rw [add_of_scenario hs]
    exact tearDownLine?_of_seats (seats_mapLatestScenario _)
  · rw [add_of_ne_scenario hs]
    exact tearDownLine?_addItem hi

theorem openLine?_add (hb : b.Placed) {i : Item} (hi : i.step? = none) :
    (b.add i).openLine? = b.openLine? := by
  rw [openLine?, openStep?_add hb hi]
  rfl

/-- While a header or a row goes to a step, that step is found. -/
theorem Placed.exists_openStep (hb : b.Placed) (hs : ¬ b.Stranded)
    (h : b.place.stepOpen = true ∨
      b.place.current = .tearDown ∧ b.document.latestTearDownStep?.isSome) :
    ∃ tree, b.openStep? = some tree := by
  rcases h with hst | ⟨hcur, hsome⟩
  · exact Option.isSome_iff_exists.1 ((hb.stepOpen hst).resolve_right hs)
  · refine Option.isSome_iff_exists.1 ?_
    rwa [openStep?, hcur]

theorem openLine?_of_tearDown (hcur : b.place.current = .tearDown) :
    b.openLine? = b.document.tearDownLine? := by
  rw [openLine?, openStep?, hcur]
  rfl

/-! ### Tables go elsewhere -/

/-- A table line goes to the step on this line. -/
def Hosts (b : Builder) (no : Nat) : Prop :=
  if b.place.current = .tearDown then b.document.tearDownLine? = some no
  else b.place.stepOpen = true ∧ b.openLine? = some no

/-- The open step is not the one on the line, so that one stays as it is. -/
theorem stepsAt_of_not_hosts (hf : ∀ s, (f s).lineNo = s.lineNo) (htree : b.openStep? = some tree)
    (hopen : b.place.stepOpen = true ∨ b.place.current = .tearDown) (hno : ¬ b.Hosts no) :
    (b.mapOpenStep f).document.stepsAt no = b.document.stepsAt no := by
  refine stepsAt_mapOpenStep_of_ne hf htree fun hline => hno ?_
  have hopenLine : b.openLine? = some no := by rw [openLine?, htree, ← hline]; rfl
  unfold Hosts
  split
  case isTrue hcur => rw [← openLine?_of_tearDown hcur, hopenLine]
  case isFalse hcur => exact ⟨hopen.resolve_right hcur, hopenLine⟩

/-- **A step on another line** stays as it is. -/
theorem Accepts.stepsAt (hb : b.Placed) (hs : ¬ b.Stranded) (ha : b.Accepts files t b')
    (hline : t.lineNo ≠ no) (hno : t.isTableLine → ¬ b.Hosts no) :
    b'.document.stepsAt no = b.document.stepsAt no := by
  have htable : ∀ {row : Text} {cells : List Text}, t.content = .tableHeader row cells ∨
      t.content = .tableRow row cells → ¬ b.Hosts no := by
    intro row cells hc
    rcases hc with hc | hc <;> exact hno (by rw [Token.isTableLine, hc])
  have hitem : ∀ {i : Item}, itemSteps i = [] →
      (b.document.addItem i).stepsAt no = b.document.stepsAt no := by
    intro i hi
    refine stepsAt_congr ?_ no
    rw [steps_addItem, hi, List.append_nil]
  cases ha with
  | heading | early | separator => rfl
  | scenario | openData | reference | tearDown => exact hitem rfl
  | @step value args block hc hp =>
    have hsteps := steps_add hb (i := .step (.ofStep (t.readStep b.frame files value args block).1))
      rfl
    have hother : ((t.readStep b.frame files value args block).1.lineNo == no) = false := by
      rw [lineNo_readStep]
      exact beq_eq_false_iff_ne.2 hline
    rw [Document.stepsAt, hsteps, List.map_append, List.filter_append]
    simp [Item.step?, StepTree.ofStep, StepTree.step, hother, Document.stepsAt]
  | @kept found place hk hplace =>
    exact stepsAt_congr (steps_add_of_none (hb.report found) (i := .comment _) rfl rfl) no
  | attach hc hp hopen =>
    obtain ⟨tree, htree⟩ := hb.exists_openStep hs hopen
    exact stepsAt_of_not_hosts (fun _ => rfl) htree (hopen.imp_right And.left) (htable (.inl hc))
  | row hc hopen hsep hstep =>
    obtain ⟨tree, htree, -⟩ := (hb.tableOpen hopen hstep).resolve_right hs
    exact stepsAt_of_not_hosts (fun s => Step.lineNo_addInlineRow s _) htree hstep
      (htable (.inr hc))
  | dataRow => exact stepsAt_congr (steps_mapDataTable b.document _) no
  | tags => exact stepsAt_congr (steps_add_of_none hb (i := .tags _) rfl rfl) no

/-! ### The lines -/

/-- A new step is the one that takes tables. -/
theorem openStep?_add_new (hb : b.Placed) (hp : b.place.current ≠ .preamble)
    (hcontext : b.place.current = .context → b.document.tearDown? = none)
    (htearDown : b.place.current = .tearDown → b.document.tearDown?.isSome) (tree : StepTree) :
    (b.add (.step tree)).openStep? = some tree := by
  have hplace : (b.add (.step tree)).place = b.place := rfl
  cases hcur : b.place.current with
  | preamble => exact absurd hcur hp
  | scenario =>
    obtain ⟨before, heading, items, hitems⟩ := hb.inScenario hcur
    simp [openStep?, hplace, hcur, latestScenario?, scenarios,
      items_add_of_scenario hcur hitems, Item.scenario?, Scenario.latestStep?, Scenario.steps,
      Item.step?]
  | context =>
    have hadd := add_of_ne_scenario (b := b) (i := .step tree) (by rw [hcur]; decide)
    rw [openStep?, hplace, hcur, hadd]
    exact latestContext?_addItem_step (hcontext hcur) tree
  | tearDown =>
    have hadd := add_of_ne_scenario (b := b) (i := .step tree) (by rw [hcur]; decide)
    rw [openStep?, hplace, hcur, hadd]
    simp only [edit, latestTearDownStep?, tearDownSteps, afterBody_addItem, if_pos (htearDown hcur),
      List.filterMap_append]
    exact List.getLast?_concat

/-- A step outside the teardown is not its last one. -/
theorem tearDownLine?_add_step
    (hcontext : b.place.current ≠ .scenario → b.document.tearDown? = none) (tree : StepTree) :
    (b.add (.step tree)).document.tearDownLine? = b.document.tearDownLine? := by
  by_cases hs : b.place.current = .scenario
  · rw [add_of_scenario hs]
    exact tearDownLine?_of_seats (seats_mapLatestScenario _)
  · have hnone := hcontext hs
    have hempty : b.document.afterBody = [] := by
      have hsplit := body_append_afterBody b.document
      rw [body_of_tearDown?_eq_none hnone] at hsplit
      exact List.append_right_eq_self.1 hsplit
    have hsame : (b.document.addItem (.step tree)).afterBody = b.document.afterBody := by
      rw [afterBody_addItem, if_neg (by simp [hnone]), hempty]
      rfl
    rw [add_of_ne_scenario hs, tearDownLine?, tearDownLine?, latestTearDownStep?,
      latestTearDownStep?, tearDownSteps, tearDownSteps]
    exact congrArg (fun items : List Item => ((items.filterMap Item.step?).getLast?).map _) hsame

/-- What a step token does below the heading. -/
theorem Accepts.eq_of_step (ha : b.Accepts files t b') {value : Text} {args : List RawArg}
    {block : Option Text} (hc : t.content = .step value args block)
    (hp : b.place.current ≠ .preamble) :
    b' = { b.add (.step (.ofStep (t.readStep b.frame files value args block).1)) with
      place := ⟨b.place.current, b.place.current != .tearDown, false⟩ } := by
  cases ha with
  | kept hk => rw [Token.Keepable, hc] at hk; exact hk.elim
  | early hc' hpre => exact absurd hpre hp
  | step hc' => cases hc.symm.trans hc'; rfl
  | heading hc' | scenario hc' | attach hc' | openData hc' | separator hc' | row hc' | dataRow hc'
  | tags hc' | reference hc' | tearDown hc' => cases hc.symm.trans hc'

/-- **A step token** is the line that takes tables, or that of the last step of the teardown. -/
theorem Accepts.seat_step (hb : b.Placed) (ha : b.Accepts files t b') {value : Text}
    {args : List RawArg} {block : Option Text} (hc : t.content = .step value args block)
    (hp : b.place.current ≠ .preamble)
    (hcontext : b.place.current = .context → b.document.tearDown? = none)
    (htearDown : b.place.current = .tearDown → b.document.tearDown?.isSome) :
    b'.place = ⟨b.place.current, b.place.current != .tearDown, false⟩ ∧
      b'.openLine? = some t.lineNo ∧
      (b.place.current ≠ .tearDown → b'.document.tearDownLine? = b.document.tearDownLine?) := by
  obtain rfl := ha.eq_of_step hc hp
  refine ⟨rfl, ?_, fun hcur => tearDownLine?_add_step (fun hs => ?_) _⟩
  · have hno : (t.readStep b.frame files value args block).1.lineNo = t.lineNo :=
      lineNo_readStep b.frame value args block
    have hline : (b.add (.step (.ofStep
        (t.readStep b.frame files value args block).1))).openLine? = some t.lineNo := by
      rw [openLine?, openStep?_add_new hb hp hcontext htearDown, ← hno]
      rfl
    exact hline
  · cases hc : b.place.current with
    | preamble => exact absurd hc hp
    | context => exact hcontext hc
    | scenario => exact absurd hc hs
    | tearDown => exact absurd hc hcur

/-- **A token that is no step** moves neither line, and can only close the open step. -/
theorem Accepts.seat (hb : b.Placed) (hs : ¬ b.Stranded) (ha : b.Accepts files t b')
    (ht : t.isStep = false) :
    b'.document.tearDownLine? = b.document.tearDownLine? ∧
      (b'.place.stepOpen = true → b.place.stepOpen = true ∧
        b'.place.current = b.place.current ∧ b'.openLine? = b.openLine?) := by
  cases ha with
  | heading => exact ⟨rfl, fun h => by cases h⟩
  | scenario => exact ⟨tearDownLine?_addItem rfl, fun h => by cases h⟩
  | early hc | step hc =>
    rw [Token.isStep, hc] at ht
    cases ht
  | @kept found place hk hplace =>
    refine ⟨tearDownLine?_add (b := b.report found) rfl, fun h => ?_⟩
    rcases hplace with rfl | rfl
    · exact ⟨h, rfl, openLine?_add (hb.report found) rfl⟩
    · cases h
  | attach hc hp hopen =>
    obtain ⟨tree, htree⟩ := hb.exists_openStep hs hopen
    exact ⟨tearDownLine?_of_seats (seats_mapOpenStep fun _ => rfl),
      fun h => ⟨h, rfl, openLine?_mapOpenStep (fun _ => rfl) htree⟩⟩
  | openData hc hp hstep =>
    exact ⟨tearDownLine?_addItem rfl, fun h => absurd (hstep.symm.trans h) (by decide)⟩
  | separator => exact ⟨rfl, fun h => ⟨h, rfl, rfl⟩⟩
  | row hc hopen hsep hstep =>
    have hfound := (hb.tableOpen hopen hstep).resolve_right hs
    obtain ⟨tree, htree, -⟩ := hfound
    exact ⟨tearDownLine?_of_seats (seats_mapOpenStep fun s => Step.lineNo_addInlineRow s _),
      fun h => ⟨h, rfl, openLine?_mapOpenStep (fun s => Step.lineNo_addInlineRow s _) htree⟩⟩
  | dataRow hc hopen hsep hstep =>
    exact ⟨tearDownLine?_of_seats (seats_mapDataTable _),
      fun h => absurd (hstep.symm.trans h) (by decide)⟩
  | tags => exact ⟨tearDownLine?_add rfl, fun h => by cases h⟩
  | @reference path table hc href hp =>
    have hcur : b.place.current ≠ .scenario := fun hs => by
      rcases hp with hp | hp <;> rw [hs] at hp <;> cases hp
    have hadd := openLine?_add hb
      (i := .dataTable ⟨{ table with lineNo := t.lineNo }, some path⟩) rfl
    rw [add_of_ne_scenario hcur] at hadd
    exact ⟨tearDownLine?_addItem rfl, fun h => ⟨h, rfl, hadd⟩⟩
  | tearDown => exact ⟨tearDownLine?_addItem rfl, fun h => by cases h⟩

end

end Builder

end ScenarioBook
