import ScenarioBook.Document.Builder
import ScenarioBook.Proofs.Document.Update
import ScenarioBook.Proofs.Step.Checked
import ScenarioBook.Proofs.Table.Regular
import ScenarioBook.Proofs.Token.Origin

/-!
# Checked documents

A document is `Checked` if all its steps, those of its scenarios included, stand alone and are
checked against the headers of its data table. The headers never change once there is a data table,
and before there are none, so a step that was checked when it was read stays checked
(`Document.EachStep.addItem`). The builder keeps this as long as it reports no error
(`Builder.Keeps`, one lemma for each kind of token), so the document of accepted tokens is checked
(`Document.checked_of_ofTokens`). The argument is the same for every property of steps that is
`Step.Steady`; that steps refer to headers of the data table is another one
(`Document.declared_of_ofTokens`).
-/

set_option autoImplicit false

namespace ScenarioBook

/-- The headers of a data table. -/
def Item.headers? (i : Item) : Option (List Text) := i.dataTable?.map (·.table.headers)

/-- A tree that stands alone and is checked. -/
def StepTree.Alone (names : List Text) (t : StepTree) : Prop :=
  ∃ s : Step, t = .ofStep s ∧ s.Checked names

namespace Document

/-- The headers of the data table, none if there is no data table. -/
def headers (d : Document) : List Text := (d.items.findSome? Item.headers?).getD []

/-- The names that steps can refer to. -/
def names (d : Document) : List Text := (Frame.ofNames d.headers).names

/-- All steps stand alone and refer only to the headers of the data table. -/
def Checked (d : Document) : Prop := ∀ t ∈ d.steps, t.Alone d.names

/-- All steps stand alone and have a property against the names that they can refer to. -/
def EachStep (P : List Text → Step → Prop) (d : Document) : Prop :=
  ∀ t ∈ d.steps, ∃ s : Step, t = .ofStep s ∧ P d.names s

theorem headers_eq (d : Document) :
    d.headers = (d.dataTable?.map (·.table.headers)).getD [] := by
  rw [headers, dataTable?, List.map_findSome?]
  rfl

/-! ## Headers -/

section
variable {d : Document}

/-- Items with the same headers give a document with the same names. -/
theorem headers_congr {items items' : List Item}
    (h : items'.map Item.headers? = items.map Item.headers?) :
    items'.findSome? Item.headers? = items.findSome? Item.headers? := by
  have := congrArg (List.findSome? id) h
  simpa [List.findSome?_map] using this

theorem mem_names_addItem (i : Item) {name : Text} (h : name ∈ d.names) :
    name ∈ (d.addItem i).names := by
  cases hd : d.items.findSome? Item.headers? with
  | none => simp [names, headers, hd, Frame.ofNames, Frame.empty, Frame.names] at h
  | some headers =>
    simpa [names, Document.headers, addItem, List.findSome?_append, hd] using h

theorem names_mapLatestScenario (f : List Item → List Item) :
    (d.mapLatestScenario f).names = d.names := by
  have hf : ∀ i i', Item.mapScenario? f i = some i' → i'.headers? = i.headers? := by
    intro i i' h
    cases i <;> cases h
    rfl
  simp only [names, headers, mapLatestScenario, headers_congr (map_updateLast hf)]

theorem headers?_mapStep? {f : StepTree → StepTree} (i i' : Item) (h : i.mapStep? f = some i') :
    i'.headers? = i.headers? := by
  cases i <;> cases h
  rfl

theorem body_append_afterBody (d : Document) : d.body ++ d.afterBody = d.items :=
  List.takeWhile_append_dropWhile

theorem map_items_mapLatestContext {β : Type} {g : Item → β} {f : StepTree → StepTree}
    (hg : ∀ i i', i.mapStep? f = some i' → g i' = g i) :
    (d.mapLatestContext f).items.map g = d.items.map g := by
  rw [mapLatestContext, List.map_append, map_updateLast hg, ← List.map_append,
    body_append_afterBody]

theorem map_items_mapLatestTearDownStep {β : Type} {g : Item → β} {f : StepTree → StepTree}
    (hg : ∀ i i', i.mapStep? f = some i' → g i' = g i) :
    (d.mapLatestTearDownStep f).items.map g = d.items.map g := by
  rw [mapLatestTearDownStep, List.map_append, map_updateLast hg, ← List.map_append,
    body_append_afterBody]

theorem names_mapLatestContext (f : StepTree → StepTree) :
    (d.mapLatestContext f).names = d.names := by
  simp only [names, headers, headers_congr (map_items_mapLatestContext headers?_mapStep?)]

theorem names_mapLatestTearDownStep (f : StepTree → StepTree) :
    (d.mapLatestTearDownStep f).names = d.names := by
  simp only [names, headers, headers_congr (map_items_mapLatestTearDownStep headers?_mapStep?)]

theorem names_mapDataTable {f : Table → Table} (hf : ∀ t, (f t).headers = t.headers) :
    (d.mapDataTable f).names = d.names := by
  have hf : ∀ i i', Item.mapDataTable? f i = some i' → i'.headers? = i.headers? := by
    intro i i' h
    cases i <;> cases h
    simp [Item.headers?, Item.dataTable?, hf]
  simp only [names, headers, mapDataTable, headers_congr (map_updateFirst hf)]

end

/-! ## Steps -/

section
variable {d : Document} {f : StepTree → StepTree} {t : StepTree}

theorem steps_addItem (i : Item) : (d.addItem i).steps = d.steps ++ itemSteps i := by
  simp [steps, addItem]

/-- The steps after a change of the last scenario: the old ones, and those of changed items. -/
theorem mem_steps_mapLatestScenario {f : List Item → List Item}
    (h : t ∈ (d.mapLatestScenario f).steps) :
    t ∈ d.steps ∨ ∃ items, (∀ t' ∈ items.filterMap Item.step?, t' ∈ d.steps) ∧
      t ∈ (f items).filterMap Item.step? := by
  obtain ⟨item, hitem, ht⟩ := List.mem_flatMap.1 h
  rcases mem_updateLast hitem with hitem | ⟨old, hold, hf⟩
  · exact .inl (List.mem_flatMap.2 ⟨item, hitem, ht⟩)
  · cases old <;> cases hf
    next heading items =>
      exact .inr ⟨items, fun t' ht' => List.mem_flatMap.2 ⟨_, hold, ht'⟩, ht⟩

theorem mem_steps_addToScenario {i : Item} (h : t ∈ (d.addToScenario i).steps) :
    t ∈ d.steps ∨ i.step? = some t := by
  rcases mem_steps_mapLatestScenario h with h | ⟨items, hitems, h⟩
  · exact .inl h
  · rw [List.filterMap_append, List.mem_append] at h
    rcases h with h | h
    · exact .inl (hitems t h)
    · exact .inr (by simpa using h)

theorem mem_itemSteps_of_mapStep? {i i' : Item} (hi : i.mapStep? f = some i')
    (h : t ∈ itemSteps i') : ∃ t' ∈ itemSteps i, t = f t' := by
  cases i <;> cases hi
  exact ⟨_, List.mem_singleton.2 rfl, List.mem_singleton.1 h⟩

theorem mem_flatMap_updateLast {items : List Item}
    (h : t ∈ (updateLast (Item.mapStep? f) items).flatMap itemSteps) :
    t ∈ items.flatMap itemSteps ∨ ∃ t' ∈ items.flatMap itemSteps, t = f t' := by
  obtain ⟨item, hitem, ht⟩ := List.mem_flatMap.1 h
  rcases mem_updateLast hitem with hitem | ⟨old, hold, hf⟩
  · exact .inl (List.mem_flatMap.2 ⟨item, hitem, ht⟩)
  · obtain ⟨t', ht', rfl⟩ := mem_itemSteps_of_mapStep? hf ht
    exact .inr ⟨t', List.mem_flatMap.2 ⟨old, hold, ht'⟩, rfl⟩

theorem mem_steps_iff : t ∈ d.steps ↔
    t ∈ d.body.flatMap itemSteps ∨ t ∈ d.afterBody.flatMap itemSteps := by
  rw [← List.mem_append, ← List.flatMap_append, body_append_afterBody, steps]

theorem mem_steps_mapLatestContext (h : t ∈ (d.mapLatestContext f).steps) :
    t ∈ d.steps ∨ ∃ t' ∈ d.steps, t = f t' := by
  simp only [steps, mapLatestContext, List.flatMap_append, List.mem_append] at h
  rcases h with h | h
  · rcases mem_flatMap_updateLast h with h | ⟨t', ht', rfl⟩
    · exact .inl (mem_steps_iff.2 (.inl h))
    · exact .inr ⟨t', mem_steps_iff.2 (.inl ht'), rfl⟩
  · exact .inl (mem_steps_iff.2 (.inr h))

theorem mem_steps_mapLatestTearDownStep (h : t ∈ (d.mapLatestTearDownStep f).steps) :
    t ∈ d.steps ∨ ∃ t' ∈ d.steps, t = f t' := by
  simp only [steps, mapLatestTearDownStep, List.flatMap_append, List.mem_append] at h
  rcases h with h | h
  · exact .inl (mem_steps_iff.2 (.inl h))
  · rcases mem_flatMap_updateLast h with h | ⟨t', ht', rfl⟩
    · exact .inl (mem_steps_iff.2 (.inr h))
    · exact .inr ⟨t', mem_steps_iff.2 (.inr ht'), rfl⟩

theorem mem_steps_mapLatestStep (h : t ∈ (d.mapLatestStep f).steps) :
    t ∈ d.steps ∨ ∃ t' ∈ d.steps, t = f t' := by
  rcases mem_steps_mapLatestScenario h with h | ⟨items, hitems, h⟩
  · exact .inl h
  · obtain ⟨item, hitem, ht⟩ := List.mem_filterMap.1 h
    rcases mem_updateLast hitem with hitem | ⟨old, hold, hf⟩
    · exact .inl (hitems t (List.mem_filterMap.2 ⟨item, hitem, ht⟩))
    · cases old <;> cases hf
      next t' =>
        cases ht
        exact .inr ⟨t', hitems t' (List.mem_filterMap.2 ⟨_, hold, rfl⟩), rfl⟩

theorem mem_steps_mapDataTable {f : Table → Table} (h : t ∈ (d.mapDataTable f).steps) :
    t ∈ d.steps := by
  obtain ⟨item, hitem, ht⟩ := List.mem_flatMap.1 h
  rcases mem_updateFirst hitem with hitem | ⟨old, hold, hf⟩
  · exact List.mem_flatMap.2 ⟨item, hitem, ht⟩
  · cases old <;> cases hf
    cases ht

end

/-! ## A property of each step -/

section
variable {P : List Text → Step → Prop} {d : Document}

theorem EachStep.addItem (hP : Step.Steady P) (h : d.EachStep P) {i : Item}
    (hi : ∀ t ∈ itemSteps i, ∃ s : Step, t = .ofStep s ∧ P d.names s) :
    (d.addItem i).EachStep P := by
  have hmono : ∀ {t : StepTree}, (∃ s : Step, t = .ofStep s ∧ P d.names s) →
      ∃ s : Step, t = .ofStep s ∧ P (d.addItem i).names s := by
    rintro t ⟨s, rfl, hs⟩
    exact ⟨s, rfl, hP.mono hs fun name => mem_names_addItem i⟩
  intro t ht
  rw [steps_addItem, List.mem_append] at ht
  exact ht.elim (fun ht => hmono (h t ht)) fun ht => hmono (hi t ht)

theorem EachStep.addToScenario (h : d.EachStep P) {i : Item}
    (hi : ∀ t, i.step? = some t → ∃ s : Step, t = .ofStep s ∧ P d.names s) :
    (d.addToScenario i).EachStep P := by
  intro t ht
  rw [Document.addToScenario, names_mapLatestScenario]
  exact (mem_steps_addToScenario ht).elim (h t) (hi t)

/-- Steps that are old ones or changed old ones have the property if the change keeps it. -/
theorem EachStep.of_change (h : d.EachStep P) {d' : Document} {f : Step → Step}
    (hnames : d'.names = d.names)
    (hsteps : ∀ t ∈ d'.steps, t ∈ d.steps ∨ ∃ t' ∈ d.steps, t = t'.mapStep f)
    (hf : ∀ s, P d.names s → P d.names (f s)) : d'.EachStep P := by
  intro t ht
  rw [hnames]
  rcases hsteps t ht with ht | ⟨t', ht', rfl⟩
  · exact h t ht
  · obtain ⟨s, rfl, hs⟩ := h t' ht'
    exact ⟨f s, rfl, hf s hs⟩

theorem EachStep.mapDataTable (h : d.EachStep P) {f : Table → Table}
    (hf : ∀ t, (f t).headers = t.headers) : (d.mapDataTable f).EachStep P := by
  intro t ht
  rw [names_mapDataTable hf]
  exact h t (mem_steps_mapDataTable ht)

end

end Document

/-! ## The builder -/

/-- If the token is a step that is read without an error, the step has the property. -/
def Token.ReadsWith (P : List Text → Step → Prop) (files : FileSource) (t : Token) : Prop :=
  ∀ value args block, t.content = .step value args block → ∀ frame,
    Clean (t.readStep frame files value args block).2 →
      P frame.names (t.readStep frame files value args block).1

namespace Builder

/-- Going from `b` to `b'` without an error keeps the property of each step. -/
def Keeps (P : List Text → Step → Prop) (b b' : Builder) : Prop :=
  Clean b'.diagnostics → Clean b.diagnostics ∧ (b.document.EachStep P → b'.document.EachStep P)

section
variable {P : List Text → Step → Prop} {b b' b'' : Builder} {t : Token} {files : FileSource}

theorem frame_names (b : Builder) : b.frame.names = b.document.names := by
  unfold frame Document.names
  rw [Document.headers_eq]
  cases b.document.dataTable? <;> rfl

theorem Keeps.trans (h : Keeps P b b') (h' : Keeps P b' b'') : Keeps P b b'' := by
  intro hc
  obtain ⟨hc', hk'⟩ := h' hc
  obtain ⟨hc'', hk⟩ := h hc'
  exact ⟨hc'', fun hb => hk' (hk hb)⟩

/-- What leaves the diagnostics alone needs to be looked at only for the document. -/
theorem Keeps.of_document (hd : b'.diagnostics = b.diagnostics)
    (h : b.document.EachStep P → b'.document.EachStep P) : Keeps P b b' := fun hc => ⟨hd ▸ hc, h⟩

theorem keeps_report (found : List Diagnostic) : Keeps P b (b.report found) := fun hc =>
  ⟨(clean_append.1 hc).1, fun h => h⟩

theorem keeps_specHeading {title : Text} : Keeps P b (b.specHeading t title) := by
  unfold specHeading
  split
  case isTrue => exact keeps_report _
  case isFalse => exact .of_document rfl fun h => h

section
variable (hP : Step.Steady P)
include hP

theorem eachStep_add {i : Item} (h : b.document.EachStep P)
    (hi : ∀ tree ∈ Document.itemSteps i, ∃ s : Step, tree = .ofStep s ∧ P b.document.names s) :
    (b.add i).document.EachStep P := by
  have hstep : ∀ tree, i.step? = some tree →
      ∃ s : Step, tree = .ofStep s ∧ P b.document.names s := by
    intro tree htree
    cases i <;> cases htree
    exact hi tree (List.mem_singleton.2 rfl)
  simp only [add, edit]
  by_cases hs : b.place.current = .scenario
  · rw [if_pos hs]
    exact h.addToScenario hstep
  · rw [if_neg hs]
    exact h.addItem hP hi

/-- Adding an item without steps. -/
theorem keeps_add {i : Item} (hi : Document.itemSteps i = []) : Keeps P b (b.add i) :=
  .of_document rfl fun h => eachStep_add hP h (by simp [hi])

theorem keeps_keep : Keeps P b (b.keep t) := keeps_add hP rfl

theorem keeps_comment : Keeps P b (b.comment t) := keeps_add (b := b) hP rfl

theorem keeps_ignore {p : Problem} : Keeps P b (b.ignore t p) :=
  (keeps_report _).trans (keeps_keep hP)

theorem keeps_scenarioHeading {title : Text} : Keeps P b (b.scenarioHeading t title) := by
  unfold scenarioHeading
  split
  case isTrue => exact keeps_report _
  case isFalse =>
    split
    case h_1 => exact keeps_report _
    case h_2 => exact .of_document rfl fun h => h.addItem hP (by simp [Document.itemSteps])

theorem keeps_step {value : Text} {args : List RawArg} {block : Option Text}
    (hread : ∀ frame, Clean (t.readStep frame files value args block).2 →
      P frame.names (t.readStep frame files value args block).1) :
    Keeps P b (b.step files t value args block) := by
  unfold step
  split
  case isTrue => exact .of_document rfl fun h => h
  case isFalse =>
    intro hc
    obtain ⟨hb, hfound⟩ := clean_append.1 hc
    refine ⟨hb, fun h => ?_⟩
    refine eachStep_add (b := b.report _) hP h fun tree htree => ?_
    rw [List.mem_singleton.1 htree]
    exact ⟨_, rfl, frame_names b ▸ hread _ hfound⟩

omit hP in
theorem eachStep_mapOpenStep {f : Step → Step} (h : b.document.EachStep P)
    (hf : ∀ s, P b.document.names s → P b.document.names (f s)) :
    (b.mapOpenStep f).document.EachStep P := by
  simp only [mapOpenStep, edit]
  split
  · exact h.of_change (Document.names_mapLatestScenario _)
      (fun _ => Document.mem_steps_mapLatestStep) hf
  · exact h.of_change (Document.names_mapLatestTearDownStep _)
      (fun _ => Document.mem_steps_mapLatestTearDownStep) hf
  · exact h.of_change (Document.names_mapLatestContext _)
      (fun _ => Document.mem_steps_mapLatestContext) hf

theorem keeps_tableHeader {cells : List Text} : Keeps P b (b.tableHeader t cells) := by
  have hopen : b.document.EachStep P → (b.mapOpenStep
      (·.addInlineTable ((Table.empty t.lineNo).addHeaders cells))).document.EachStep P := fun h =>
    eachStep_mapOpenStep h fun s hs =>
      hP.addInlineTable hs (Table.references_empty_addHeaders t.lineNo cells)
  unfold tableHeader
  simp only
  split
  case h_1 => exact keeps_comment hP
  case h_2 =>
    split
    case isTrue => exact .of_document rfl hopen
    case isFalse => exact keeps_ignore hP
  case h_3 =>
    split
    case isTrue => exact .of_document rfl hopen
    case isFalse => exact keeps_comment hP
  case h_4 =>
    split
    case isTrue => exact .of_document rfl hopen
    case isFalse =>
      split
      case isTrue => exact .of_document rfl fun h => h.addItem hP (by simp [Document.itemSteps])
      case isFalse => exact keeps_ignore hP

theorem keeps_tableRow {cells : List Text} : Keeps P b (b.tableRow files t cells) := by
  unfold tableRow
  split
  case isTrue => exact keeps_comment hP
  case isFalse =>
    split
    case isTrue => exact .of_document rfl fun h => h
    case isFalse =>
      split
      case isTrue =>
        intro hc
        obtain ⟨hb, hfound⟩ := clean_append.1 hc
        refine ⟨hb, fun h => eachStep_mapOpenStep (b := b.report _) h fun s hs => ?_⟩
        refine hP.addInlineRow hs fun name hn => ?_
        have := Token.declared_readRow hfound hn
        rwa [frame_names] at this
      case isFalse =>
        exact (keeps_report _).trans (.of_document rfl fun h =>
          h.mapDataTable fun t => t.headers_addRow _)

theorem keeps_tags {values : List Text} : Keeps P b (b.tags t values) := by
  unfold tags
  simp only
  split
  · split
    · exact keeps_ignore (b := b) hP
    · exact keeps_add (b := b) hP rfl
  · split
    · exact keeps_ignore (b := b) hP
    · exact keeps_add (b := b) hP rfl

theorem keeps_dataTable {path : Text} : Keeps P b (b.dataTable files t path) := by
  unfold dataTable
  split
  case h_1 => exact keeps_report _
  case h_2 =>
    split
    case isTrue => exact keeps_ignore hP
    case isFalse =>
      split
      case isTrue => exact keeps_ignore hP
      case isFalse => exact .of_document rfl fun h => h.addItem hP (by simp [Document.itemSteps])

theorem keeps_tearDown {marker : Text} : Keeps P b (b.tearDown t marker) :=
  .of_document rfl fun h => h.addItem hP (by simp [Document.itemSteps])

/-- **One token keeps the property of each step**, unless it reports an error. -/
theorem keeps_accept (h : t.ReadsWith P files) : Keeps P b (b.accept files t) := by
  obtain ⟨no, span, lineText, content⟩ := t
  cases content with
  | heading kind title =>
    cases kind with
    | spec => exact keeps_specHeading
    | scenario => exact keeps_scenarioHeading hP
  | step value args block => exact keeps_step hP (h value args block rfl)
  | comment text => exact keeps_comment hP
  | tableHeader row cells => exact keeps_tableHeader hP
  | tableRow row cells => exact keeps_tableRow hP
  | tags text values => exact keeps_tags hP
  | dataTable path => exact keeps_dataTable hP
  | tearDown marker => exact keeps_tearDown hP

theorem keeps_foldl {tokens : List Token} (h : ∀ t ∈ tokens, t.ReadsWith P files) :
    Keeps P b (tokens.foldl (accept files) b) := by
  induction tokens generalizing b with
  | nil => exact .of_document rfl fun hb => hb
  | cons t tokens ih =>
    obtain ⟨ht, hts⟩ := List.forall_mem_cons.1 h
    exact (keeps_accept hP ht).trans (ih hts)

end

end

end Builder

namespace Document

variable {fileName : Text} {files : FileSource} {tokens : List Token} {parsed : Parsed Document}

/-- A steady property that steps have when they are read is one of each step of the document. -/
theorem eachStep_of_ofTokens {P : List Text → Step → Prop} (hP : Step.Steady P)
    (h : Document.ofTokens fileName files tokens = .ok parsed)
    (ht : ∀ t ∈ tokens, t.ReadsWith P files) : parsed.document.EachStep P := by
  obtain ⟨hclean, rfl⟩ := settle_eq_ok h
  have hb : Clean (tokens.foldl (Builder.accept files) (.start fileName)).diagnostics := by
    split at hclean
    case isTrue => exact hclean
    case isFalse => exact (clean_append.1 hclean).1
  refine (Builder.keeps_foldl (b := .start fileName) hP ht hb).2 fun t ht => ?_
  cases ht

/-- **The document of accepted tokens is checked.** -/
theorem checked_of_ofTokens (h : Document.ofTokens fileName files tokens = .ok parsed)
    (ht : ∀ t ∈ tokens, t.Filled) : parsed.document.Checked := by
  refine eachStep_of_ofTokens Step.steady_checked h fun t hmem value args block hcontent frame => ?_
  have hfilled := ht t hmem
  rw [Token.Filled, hcontent] at hfilled
  exact Token.checked_readStep hfilled

/-- **The steps of accepted tokens refer to headers of the data table.** -/
theorem declared_of_ofTokens (h : Document.ofTokens fileName files tokens = .ok parsed) :
    parsed.document.EachStep Step.Declared :=
  eachStep_of_ofTokens Step.steady_declared h fun _ _ _ _ _ _ _ => Token.declared_readStep

end Document

end ScenarioBook
