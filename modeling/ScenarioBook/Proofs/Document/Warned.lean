import ScenarioBook.Proofs.Document.Accepted

/-!
# Lines that are warned about are kept

A warning says that a line was ignored. Each such line stands in the document as a comment, with its
line number and its text (`Document.warned_of_ofTokens`), so a document in which all comments are
blank lines was read without a warning. The builder never takes a comment or a scenario away
(`Document.Extends`), and while a scenario is open there is one that takes the comment
(`Builder.Traced`).

The same invariant says that the steps of a document stand alone before they are expanded
(`Document.alone_of_ofTokens`).
-/

set_option autoImplicit false

namespace ScenarioBook

def Item.comment? : Item → Option Comment
  | .comment c => some c
  | _ => none

namespace Document

/-- The comments of one item: its own, or those of its scenario. -/
def itemComments : Item → List Comment
  | .comment c => [c]
  | .scenario _ items => items.filterMap Item.comment?
  | _ => []

/-- All comments in source order. -/
def comments (d : Document) : List Comment := d.items.flatMap itemComments

def hasScenario (d : Document) : Bool := d.items.any (·.scenario?.isSome)

/-- All steps stand alone. -/
def Alone (d : Document) : Prop := ∀ t ∈ d.steps, t = .ofStep t.step

/-- The comments of `d` are there in `d'`, so is a scenario, and steps stand alone if they did. -/
structure Extends (d d' : Document) : Prop where
  comments : d.comments ⊆ d'.comments
  scenario : d.hasScenario → d'.hasScenario
  alone : d.Alone → d'.Alone

/-! ## Changes of steps and tables -/

/-- The comments of an item, and whether it is a scenario. -/
def itemShell (i : Item) : List Comment × Bool := (itemComments i, i.scenario?.isSome)

section
variable {d d' : Document} {i i' : Item}

/-- A change that leaves comments and scenarios alone extends the document, if it leaves the steps
alone or changes them in place. -/
theorem Extends.of_shells (h : d'.items.map itemShell = d.items.map itemShell) {f : Step → Step}
    (hsteps : ∀ t ∈ d'.steps, t ∈ d.steps ∨ ∃ t' ∈ d.steps, t = t'.mapStep f) : d.Extends d' := by
  have hcomments := congrArg (List.flatMap Prod.fst) h
  have hscenario := congrArg (List.any · Prod.snd) h
  simp only [List.flatMap_map, List.any_map, Function.comp_def, itemShell] at hcomments hscenario
  refine ⟨?_, fun hd => hscenario.trans hd, fun ha t ht => ?_⟩
  · rw [Document.comments, Document.comments, hcomments]
    exact List.Subset.refl _
  · rcases hsteps t ht with ht | ⟨t', ht', rfl⟩
    · exact ha t ht
    · rw [ha t' ht']
      rfl

theorem itemShell_mapStep? {f : StepTree → StepTree} (h : i.mapStep? f = some i') :
    itemShell i' = itemShell i := by
  cases i <;> cases h
  rfl

theorem itemShell_mapDataTable? {f : Table → Table} (h : i.mapDataTable? f = some i') :
    itemShell i' = itemShell i := by
  cases i <;> cases h
  rfl

theorem itemShell_mapScenario? {f : StepTree → StepTree}
    (h : i.mapScenario? (updateLast (Item.mapStep? f)) = some i') : itemShell i' = itemShell i := by
  cases i <;> cases h
  next heading items =>
    have hcomments : (updateLast (Item.mapStep? f) items).map Item.comment? =
        items.map Item.comment? := by
      refine map_updateLast fun i i' hi => ?_
      cases i <;> cases hi
      rfl
    have hfilter := congrArg (List.filterMap id) hcomments
    simp only [List.filterMap_map, Function.id_comp] at hfilter
    simp only [itemShell, itemComments, hfilter, Item.scenario?, Option.isSome]

theorem extends_mapLatestStep (f : Step → Step) :
    d.Extends (d.mapLatestStep (·.mapStep f)) :=
  .of_shells (map_updateLast fun _ _ => itemShell_mapScenario?) fun _ => mem_steps_mapLatestStep

theorem extends_mapLatestContext (f : Step → Step) :
    d.Extends (d.mapLatestContext (·.mapStep f)) := by
  refine .of_shells ?_ fun _ => mem_steps_mapLatestContext
  rw [mapLatestContext, List.map_append, map_updateLast fun _ _ => itemShell_mapStep?,
    ← List.map_append, body_append_afterBody]

theorem extends_mapLatestTearDownStep (f : Step → Step) :
    d.Extends (d.mapLatestTearDownStep (·.mapStep f)) := by
  refine .of_shells ?_ fun _ => mem_steps_mapLatestTearDownStep
  rw [mapLatestTearDownStep, List.map_append, map_updateLast fun _ _ => itemShell_mapStep?,
    ← List.map_append, body_append_afterBody]

theorem extends_mapDataTable (f : Table → Table) : d.Extends (d.mapDataTable f) :=
  .of_shells (f := id) (map_updateFirst fun _ _ => itemShell_mapDataTable?)
    fun _ ht => .inl (mem_steps_mapDataTable ht)

/-! ## New items -/

theorem extends_addItem (hi : ∀ t ∈ itemSteps i, t = .ofStep t.step) : d.Extends (d.addItem i) := by
  refine ⟨?_, fun hd => ?_, fun ha t ht => ?_⟩
  · rw [comments, comments, addItem, List.flatMap_append]
    exact List.subset_append_left _ _
  · rw [hasScenario, addItem, List.any_append, Bool.or_eq_true]
    exact .inl hd
  · rw [steps_addItem, List.mem_append] at ht
    exact ht.elim (ha t) (hi t)

theorem extends_addToScenario (hi : ∀ t ∈ i.step?, t = .ofStep t.step) :
    d.Extends (d.addToScenario i) := by
  refine ⟨flatMap_subset_updateLast fun i i' h => ?_, fun hd => ?_, fun ha t ht => ?_⟩
  · cases i <;> cases h
    rw [itemComments, itemComments, List.filterMap_append]
    exact List.subset_append_left _ _
  · have hmap : (d.addToScenario i).items.map (·.scenario?.isSome) =
        d.items.map (·.scenario?.isSome) := by
      refine map_updateLast fun i i' h => ?_
      cases i <;> cases h
      rfl
    have hscenario := congrArg (List.any · id) hmap
    simp only [List.any_map, Function.id_comp] at hscenario
    exact hscenario.trans hd
  · exact (mem_steps_addToScenario ht).elim (ha t) (hi t)

theorem mem_comments_addToScenario (h : d.hasScenario) (c : Comment) :
    c ∈ (d.addToScenario (.comment c)).comments := by
  obtain ⟨i, hi, hs⟩ := List.any_eq_true.1 h
  have hsome : (i.mapScenario? (· ++ [.comment c])).isSome := by
    cases i with
    | scenario => rfl
    | _ => cases hs
  obtain ⟨before, i, i', after, -, hf, -, hupd⟩ := exists_updateLast ⟨i, hi, hsome⟩
  have hi' : i' ∈ (d.addToScenario (.comment c)).items := by
    rw [Document.addToScenario, Document.mapLatestScenario, hupd]
    exact List.mem_append_right _ List.mem_cons_self
  cases i <;> cases hf
  exact List.mem_flatMap.2 ⟨_, hi', by simp [itemComments, Item.comment?]⟩

end

end Document

/-! ## Faults found while reading -/

/-- All diagnostics are errors. -/
def AllErrors (found : List Diagnostic) : Prop := ∀ x ∈ found, x.isError = true

theorem allErrors_nil : AllErrors [] := fun _ hx => by cases hx

theorem allErrors_problem (t : Token) {p : Problem} (hp : p.severity = .error) :
    AllErrors [t.problem p] := by
  intro x hx
  rw [List.mem_singleton.1 hx, isError_problem, hp]
  rfl

theorem allErrors_flatMap {α : Type} {f : α → List Diagnostic} {as : List α}
    (h : ∀ a ∈ as, AllErrors (f a)) : AllErrors (as.flatMap f) := by
  intro x hx
  obtain ⟨a, ha, hx⟩ := List.mem_flatMap.1 hx
  exact h a ha x hx

namespace Token

variable (t : Token) (frame : Frame) (files : FileSource)

theorem allErrors_readArg (raw : RawArg) : AllErrors (t.readArg frame files raw).2 := by
  unfold readArg
  split
  · exact allErrors_nil
  · simp only
    split
    · exact allErrors_nil
    · exact allErrors_problem t rfl
  · split
    · exact allErrors_nil
    · exact allErrors_problem t rfl

theorem allErrors_readStep (value : Text) (raws : List RawArg) (block : Option Text) :
    AllErrors (t.readStep frame files value raws block).2 := by
  have hargs : AllErrors ((raws.map (t.readArg frame files)).flatMap (·.2)) := by
    rw [List.flatMap_map]
    exact allErrors_flatMap fun raw _ => t.allErrors_readArg frame files raw
  unfold readStep
  split
  · exact hargs
  · split
    · exact hargs
    · exact List.forall_mem_append.2 ⟨hargs, allErrors_problem t rfl⟩

theorem allErrors_readFileCell? {param : Text} {found : Cell × List Diagnostic}
    (h : t.readFileCell? files param = some found) : AllErrors found.2 := by
  unfold readFileCell? at h
  split at h
  · split at h
    · cases h
      exact allErrors_nil
    · cases h
      exact allErrors_problem t rfl
  · cases h

theorem allErrors_readCell (cell : Text) : AllErrors (t.readCell frame files cell).2 := by
  unfold readCell
  split
  · exact allErrors_nil
  · split
    case h_1 hfound => exact t.allErrors_readFileCell? files hfound
    case h_2 =>
      simp only
      split
      · exact allErrors_nil
      · exact allErrors_problem t rfl

theorem allErrors_readDataCell (cell : Text) : AllErrors (t.readDataCell files cell).2 := by
  unfold readDataCell
  split
  case h_1 found hfound =>
    obtain ⟨param, -, hfound⟩ := Option.bind_eq_some_iff.1 hfound
    exact t.allErrors_readFileCell? files hfound
  case h_2 => exact allErrors_nil

theorem allErrors_readRow (cells : List Text) : AllErrors (t.readRow frame files cells).2 := by
  rw [readRow, List.flatMap_map]
  exact allErrors_flatMap fun cell _ => t.allErrors_readCell frame files cell

theorem allErrors_readDataRow (cells : List Text) : AllErrors (t.readDataRow files cells).2 := by
  rw [readDataRow, List.flatMap_map]
  exact allErrors_flatMap fun cell _ => t.allErrors_readDataCell files cell

end Token

/-! ## The builder -/

/-- The line that the diagnostic is about stands in this comment. -/
def Diagnostic.KeptIn (x : Diagnostic) (c : Comment) : Prop :=
  x.lineNo = some c.lineNo ∧ x.lineText.map Text.trimEnd = some c.text

namespace Builder

/-- Steps stand alone, a scenario that is open is there, and the line of each warning is kept. -/
structure Traced (b : Builder) : Prop where
  alone : b.document.Alone
  inScenario : b.place.current = .scenario → b.document.hasScenario
  warned : ∀ x ∈ b.diagnostics, x.isError = false → ∃ c ∈ b.document.comments, x.KeptIn c

section
variable {b : Builder} {t : Token} {files : FileSource}

theorem Traced.edit (h : b.Traced) {f : Document → Document}
    (hf : b.document.Extends (f b.document)) : (b.edit f).Traced := by
  refine ⟨hf.alone h.alone, fun hs => hf.scenario (h.inScenario hs), fun x hx hw => ?_⟩
  obtain ⟨c, hc, hkept⟩ := h.warned x hx hw
  exact ⟨c, hf.comments hc, hkept⟩

theorem Traced.at_place (h : b.Traced) {p : Place}
    (hp : p.current = .scenario → b.place.current = .scenario) :
    { b with place := p }.Traced :=
  ⟨h.alone, fun hs => h.inScenario (hp hs), h.warned⟩

theorem Traced.close (h : b.Traced) : b.close.Traced := h.at_place id

theorem Traced.report (h : b.Traced) {found : List Diagnostic} (hf : AllErrors found) :
    (b.report found).Traced := by
  refine ⟨h.alone, h.inScenario, fun x hx hw => ?_⟩
  rcases List.mem_append.1 hx with hx | hx
  · exact h.warned x hx hw
  · rw [hf x hx] at hw
    cases hw

theorem Traced.problem (h : b.Traced) {p : Problem} (hp : p.severity = .error) :
    (b.report [t.problem p]).Traced := h.report (allErrors_problem t hp)

theorem Traced.add (h : b.Traced) {i : Item}
    (hi : ∀ tree ∈ Document.itemSteps i, tree = .ofStep tree.step) : (b.add i).Traced := by
  refine h.edit ?_
  split
  · refine Document.extends_addToScenario fun tree ht => hi tree ?_
    cases i <;> cases ht
    exact List.mem_singleton.2 rfl
  · exact Document.extends_addItem hi

theorem Traced.keep (h : b.Traced) : (b.keep t).Traced := h.add fun _ ht => by cases ht

theorem Traced.comment (h : b.Traced) : (b.comment t).Traced := h.keep.close

theorem mem_comments_keep (h : b.Traced) :
    ⟨t.asComment, t.lineNo⟩ ∈ (b.keep t).document.comments := by
  simp only [Builder.keep, Builder.add, Builder.edit]
  split
  case isTrue hs => exact Document.mem_comments_addToScenario (h.inScenario hs) _
  case isFalse =>
    simp [Document.comments, Document.addItem, Document.itemComments]

/-- **The line of an ignored token is kept.** -/
theorem Traced.ignore (h : b.Traced) {p : Problem} (ht : t.asComment = t.lineText.trimEnd) :
    (b.ignore t p).Traced := by
  have hkeep : (b.keep t).Traced := h.keep
  refine ⟨hkeep.alone, hkeep.inScenario, fun x hx hw => ?_⟩
  rcases List.mem_append.1 hx with hx | hx
  · exact hkeep.warned x hx hw
  · have hmem : ⟨t.asComment, t.lineNo⟩ ∈ (b.keep t).document.comments := mem_comments_keep h
    rw [List.mem_singleton.1 hx]
    exact ⟨_, hmem, rfl, congrArg some ht.symm⟩

theorem Traced.mapOpenStep (h : b.Traced) (f : Step → Step) : (b.mapOpenStep f).Traced := by
  refine h.edit ?_
  split
  · exact Document.extends_mapLatestStep f
  · exact Document.extends_mapLatestTearDownStep f
  · exact Document.extends_mapLatestContext f

/-! ### One token -/

theorem Traced.specHeading (h : b.Traced) (title : Text) : (b.specHeading t title).Traced := by
  unfold Builder.specHeading
  split
  · exact h.problem rfl
  · exact ⟨h.alone, (fun hs => by cases hs), h.warned⟩

theorem Traced.scenarioHeading (h : b.Traced) (title : Text) :
    (b.scenarioHeading t title).Traced := by
  unfold Builder.scenarioHeading
  split
  · exact h.problem rfl
  · split
    · exact h.problem rfl
    · have hadd := h.edit (f := (·.addItem (.scenario ⟨title, t.lineNo, .scenario⟩ [])))
        (Document.extends_addItem fun _ ht => by cases ht)
      refine ⟨hadd.alone, fun _ => ?_, hadd.warned⟩
      simp [Builder.enter, Builder.edit, Document.hasScenario, Document.addItem, Item.scenario?]

theorem Traced.step (h : b.Traced) (value : Text) (args : List RawArg) (block : Option Text) :
    (b.step files t value args block).Traced := by
  unfold Builder.step
  split
  · exact h
  · have hreport := h.report (t.allErrors_readStep b.frame files value args block)
    refine (hreport.add fun tree ht => ?_).at_place id
    rw [List.mem_singleton.1 ht]
    rfl

theorem Traced.tableHeader (h : b.Traced) (cells : List Text)
    (ht : t.asComment = t.lineText.trimEnd) : (b.tableHeader t cells).Traced := by
  unfold Builder.tableHeader
  simp only
  split
  · exact h.comment
  · split
    · exact (h.mapOpenStep _).at_place id
    · exact h.ignore ht
  · split
    · exact (h.mapOpenStep _).at_place id
    · exact h.comment
  · split
    · exact (h.mapOpenStep _).at_place id
    · split
      · exact (h.edit (Document.extends_addItem fun _ ht => by cases ht)).at_place id
      · exact h.ignore ht

theorem Traced.tableRow (h : b.Traced) (cells : List Text) :
    (b.tableRow files t cells).Traced := by
  unfold Builder.tableRow
  split
  · exact h.comment
  · split
    · exact h
    · split
      · exact (h.report (t.allErrors_readRow b.frame files cells)).mapOpenStep _
      · exact (h.report (t.allErrors_readDataRow files cells)).edit
          (Document.extends_mapDataTable _)

theorem Traced.tags (h : b.Traced) (values : List Text) (ht : t.asComment = t.lineText.trimEnd) :
    (b.tags t values).Traced := by
  have hadd : (b.add (.tags ⟨values, t.lineNo⟩)).Traced := h.add fun _ ht => by cases ht
  unfold Builder.tags
  simp only
  split
  · split
    · exact (h.ignore ht).close
    · exact hadd.close
  · split
    · exact (h.ignore ht).close
    · exact hadd.close

theorem Traced.dataTable (h : b.Traced) (path : Text) (ht : t.asComment = t.lineText.trimEnd) :
    (b.dataTable files t path).Traced := by
  unfold Builder.dataTable
  split
  · exact h.problem rfl
  · split
    · exact h.ignore ht
    · split
      · exact h.ignore ht
      · exact h.edit (Document.extends_addItem fun _ ht => by cases ht)

theorem Traced.tearDown (h : b.Traced) (marker : Text) : (b.tearDown t marker).Traced := by
  refine (h.edit (Document.extends_addItem fun _ ht => by cases ht)).at_place fun hs => ?_
  dsimp only at hs
  split at hs <;> cases hs

/-- **One token keeps the builder traced.** -/
theorem Traced.accept (h : b.Traced) (t : Token) : (b.accept files t).Traced := by
  obtain ⟨no, span, lineText, content⟩ := t
  cases content with
  | heading kind title =>
    cases kind with
    | spec => exact h.specHeading title
    | scenario => exact h.scenarioHeading title
  | step value args block => exact h.step value args block
  | comment text => exact h.comment
  | tableHeader row cells => exact h.tableHeader cells rfl
  | tableRow row cells => exact h.tableRow cells
  | tags text values => exact h.tags values rfl
  | dataTable path => exact h.dataTable path rfl
  | tearDown marker => exact h.tearDown marker

theorem traced_start (fileName : Text) : (start fileName).Traced where
  alone _ ht := by cases ht
  inScenario hs := by cases hs
  warned _ hx := by cases hx

theorem Traced.foldl (h : b.Traced) (tokens : List Token) :
    (tokens.foldl (Builder.accept files) b).Traced := by
  induction tokens generalizing b with
  | nil => exact h
  | cons t tokens ih => exact ih (h.accept t)

end

end Builder

namespace Document

variable {fileName : Text} {files : FileSource} {tokens : List Token} {parsed : Parsed Document}

/-- The document of accepted tokens is the one the builder ends with, and so are its warnings. -/
theorem ofTokens_eq_ok_run (h : ofTokens fileName files tokens = .ok parsed) :
    Clean (tokens.foldl (Builder.accept files) (.start fileName)).diagnostics ∧
      parsed = ⟨(tokens.foldl (Builder.accept files) (.start fileName)).document,
        (tokens.foldl (Builder.accept files) (.start fileName)).diagnostics⟩ := by
  obtain ⟨-, hflaws⟩ := ofTokens_eq_ok h
  obtain ⟨hclean, rfl⟩ := settle_eq_ok h
  simp only at hflaws
  simp only [hflaws, List.map_nil, List.append_nil, ite_self] at hclean ⊢
  exact ⟨hclean, trivial⟩

theorem ofTokens_eq_ok_traced (h : ofTokens fileName files tokens = .ok parsed) :
    ∃ b : Builder, b.Traced ∧ Clean b.diagnostics ∧ parsed = ⟨b.document, b.diagnostics⟩ := by
  obtain ⟨hclean, hparsed⟩ := ofTokens_eq_ok_run h
  exact ⟨_, (Builder.traced_start fileName).foldl tokens, hclean, hparsed⟩

/-- The steps of a document that is not yet expanded stand alone. -/
theorem alone_of_ofTokens (h : ofTokens fileName files tokens = .ok parsed) :
    parsed.document.Alone := by
  obtain ⟨b, hb, -, rfl⟩ := ofTokens_eq_ok_traced h
  exact hb.alone

/-- **The line of every warning is kept as a comment.** -/
theorem warned_of_ofTokens (h : ofTokens fileName files tokens = .ok parsed) :
    ∀ x ∈ parsed.warnings, ∃ c ∈ parsed.document.comments, x.KeptIn c := by
  obtain ⟨b, hb, hclean, rfl⟩ := ofTokens_eq_ok_traced h
  exact fun x hx => hb.warned x hx (hclean x hx)

end Document

end ScenarioBook
