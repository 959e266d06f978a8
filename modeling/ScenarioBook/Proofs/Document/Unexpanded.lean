import ScenarioBook.Proofs.Dictionary.History
import ScenarioBook.Proofs.Document.Warned
import ScenarioBook.Proofs.Layout.Bare

/-!
# What the dictionary can change

A dictionary changes nothing of a document but what hangs below its steps. The document with every
expansion taken away, `Document.unexpanded`, is the one that is read without a dictionary, and so
are the warnings, or else the diagnostics of the refusal (`Document.parse_unexpanded`): the steps of
a document stand alone until they are expanded, expansion keeps the step at the root of each tree,
and nothing but steps is visited. Hence two dictionaries cannot be told apart by what is accepted,
by what is reported or by what a layout writes (`Document.parse_same_unexpanded`).
-/

set_option autoImplicit false

namespace ScenarioBook

/-- The step of a tree without its expansion: no call, no frame, no body. -/
def StepTree.unexpanded (t : StepTree) : StepTree := .ofStep t.step

/-- The document with each step without its expansion. -/
def Document.unexpanded (d : Document) : Document := d.mapSteps StepTree.unexpanded

/-- A parsed document without its expansions, with the same warnings. -/
def Parsed.unexpanded (p : Parsed Document) : Parsed Document :=
  ⟨p.document.unexpanded, p.warnings⟩

namespace Document

/-! ## Changing every step -/

section
variable {d : Document} {f g : StepTree → StepTree}

/-- Steps changed twice are changed once by both changes. -/
theorem mapSteps_mapSteps (d : Document) (f g : StepTree → StepTree) :
    (d.mapSteps g).mapSteps f = d.mapSteps fun t => f (g t) := by
  have hinner (i : Item) : ((((i.mapStep? g).getD i).mapStep? f).getD ((i.mapStep? g).getD i)) =
      (i.mapStep? fun t => f (g t)).getD i := by
    cases i <;> rfl
  have hitem (i : Item) : mapItemSteps f (mapItemSteps g i) =
      mapItemSteps (fun t => f (g t)) i := by
    cases i with
    | scenario heading items =>
      rw [mapItemSteps, mapItemSteps, mapItemSteps, List.map_map]
      exact congrArg (Item.scenario heading) (List.map_congr_left fun i _ => hinner i)
    | _ => rfl
  rw [mapSteps, mapSteps, mapSteps, List.map_map]
  exact congrArg (fun items => { d with items := items })
    (List.map_congr_left fun i _ => hitem i)

/-- A change that leaves each step of the document as it is leaves the document as it is. -/
theorem mapSteps_eq_self (h : ∀ t ∈ d.steps, f t = t) : d.mapSteps f = d := by
  have hitem (i : Item) (hi : i ∈ d.items) : mapItemSteps f i = i := by
    have hsteps (t : StepTree) (ht : t ∈ itemSteps i) : f t = t :=
      h t (List.mem_flatMap.2 ⟨i, hi, ht⟩)
    cases i with
    | step t => exact congrArg Item.step (hsteps t (List.mem_singleton.2 rfl))
    | scenario heading items =>
      have hinner (i : Item) (hi : i ∈ items) : (i.mapStep? f).getD i = i := by
        cases i with
        | step t => exact congrArg Item.step (hsteps t (List.mem_filterMap.2 ⟨_, hi, rfl⟩))
        | _ => rfl
      rw [mapItemSteps]
      exact congrArg (Item.scenario heading) ((List.map_congr_left hinner).trans (List.map_id _))
    | _ => rfl
  rw [mapSteps]
  exact congrArg (fun items => { d with items := items })
    ((List.map_congr_left hitem).trans (List.map_id _))

end

/-! ## Expansion and its erasure -/

/-- **Expansion adds nothing that erasing it leaves behind.** -/
theorem unexpanded_expandDocument (dictionary : Dictionary) (d : Document) :
    (dictionary.expandDocument d).unexpanded = d.unexpanded := by
  have h : (fun t => (dictionary.expand t).unexpanded) = StepTree.unexpanded :=
    funext fun t => congrArg StepTree.ofStep (dictionary.step_expand t)
  rw [unexpanded, Dictionary.expandDocument, mapSteps_mapSteps, h, unexpanded]

theorem unexpanded_of_alone {d : Document} (h : d.Alone) : d.unexpanded = d :=
  mapSteps_eq_self fun t ht => (h t ht).symm

/-- The empty dictionary expands nothing. -/
theorem expandDocument_empty (d : Document) : Dictionary.empty.expandDocument d = d :=
  mapSteps_eq_self fun _ _ => rfl

/-- A layout writes a document as it does without expansions. -/
theorem layout_unexpanded (lay : Layout) (d : Document) :
    lay.document d.unexpanded = lay.document d := by
  have hbare : d.unexpanded.bare = d.bare := by
    simp only [unexpanded, mapSteps, bare, bareAll_eq_map, List.map_map]
    congr 1
    exact List.map_congr_left fun i _ =>
      Item.bare_mapItemSteps (f := StepTree.unexpanded) (fun _ => rfl) i
  rw [← lay.document_bare, hbare, lay.document_bare]

/-! ## Parsing -/

/-- **Without its expansions a parsed document is the one parsed without a dictionary**, with the
same warnings, and a source is refused with the same diagnostics. -/
theorem parse_unexpanded (source fileName : Text) (dictionary : Dictionary) (files : FileSource) :
    (Document.parse source fileName dictionary files).map Parsed.unexpanded =
      Document.parse source fileName .empty files := by
  unfold Document.parse
  cases tokenize source with
  | error r => rfl
  | ok tokens =>
    cases hread : ofTokens fileName files tokens with
    | error r => simp only [bind, Except.bind, hread, Except.map]
    | ok read =>
      have hdoc : (dictionary.expandDocument read.document).unexpanded = read.document := by
        rw [unexpanded_expandDocument, unexpanded_of_alone (alone_of_ofTokens hread)]
      simp only [bind, Except.bind, hread, pure, Except.pure, Except.map, Parsed.unexpanded, hdoc,
        expandDocument_empty]

/-- **The dictionary changes expansions only.** Whatever was added to two dictionaries, a source is
refused with both, for the same diagnostics, or accepted with both, with the same warnings. The two
documents are equal once the expansion of each step is taken away, and they are then the document
that is parsed without a dictionary. So every layout writes them alike. -/
theorem parse_same_unexpanded (first second : List (List Concept)) (source fileName : Text)
    (files : FileSource) :
    let withFirst := Document.parse source fileName (Dictionary.after first) files
    let withSecond := Document.parse source fileName (Dictionary.after second) files
    withFirst.map Parsed.unexpanded = withSecond.map Parsed.unexpanded ∧
    withFirst.map Parsed.unexpanded = Document.parse source fileName .empty files ∧
    ∀ lay : Layout, withFirst.map (fun p => lay.document p.document) =
      withSecond.map fun p => lay.document p.document := by
  intro withFirst withSecond
  have hfirst : withFirst.map Parsed.unexpanded = _ := parse_unexpanded ..
  have hsecond : withSecond.map Parsed.unexpanded = _ := parse_unexpanded ..
  refine ⟨hfirst.trans hsecond.symm, hfirst, fun lay => ?_⟩
  -- what is written is read off the document without its expansions
  have hlayout (p : Except Rejection (Parsed Document)) :
      p.map (fun p => lay.document p.document) =
        (p.map Parsed.unexpanded).map fun p => lay.document p.document := by
    cases p with
    | error r => rfl
    | ok p => exact congrArg Except.ok (layout_unexpanded lay p.document).symm
  calc withFirst.map (fun p => lay.document p.document)
      _ = (withFirst.map Parsed.unexpanded).map fun p => lay.document p.document := hlayout _
      _ = (withSecond.map Parsed.unexpanded).map fun p => lay.document p.document := by
        rw [hfirst, hsecond]
      _ = withSecond.map fun p => lay.document p.document := (hlayout _).symm

end Document

end ScenarioBook
