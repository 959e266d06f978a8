import ScenarioBook.Proofs.Concept.Checked
import ScenarioBook.Proofs.Dictionary.Expansion
import ScenarioBook.Proofs.Document.Accepted
import ScenarioBook.Proofs.Resolution.Scope

/-!
# Accepted documents resolve

The checks made while reading are enough for resolution: a scenario of an accepted document, with
its concept calls expanded by a dictionary of accepted concepts, is resolved for every valid row
(`Document.resolveScenario_of_parse`). The argument goes through three facts.

* **Expansion is sound.** A call binds all formal parameters of its concept, because the signature
  has a placeholder for each of them and the step has an argument for each placeholder
  (`Dictionary.sound_expandWithin`).
* **Sound trees resolve** in every complete scope that declares their names
  (`StepTree.Sound.resolve`).
* **The frame of a row is bound** and declares the headers (`Document.exists_rowFrame`).

The outline of a step tree is its shape with the texts and the calls marked. Resolution keeps it.
-/

set_option autoImplicit false

namespace ScenarioBook

/-! ## Outlines -/

/-- The shape of a step tree: at each node the text, the number of arguments and whether it is a
concept call, and below it the nodes of the body. -/
inductive Outline where
  | node (text : Text) (args : Nat) (isCall : Bool) (body : List Outline)

mutual

def StepTree.outline : StepTree → Outline
  | .plain s f => .node s.value s.args.length (StepTree.plain s f).isCall []
  | .call s f body => .node s.value s.args.length (StepTree.call s f body).isCall (outlines body)

/-- The outlines of step trees in order. -/
def StepTree.outlines : List StepTree → List Outline
  | [] => []
  | t :: ts => t.outline :: outlines ts

end

mutual

def ResolvedStep.outline : ResolvedStep → Outline
  | ⟨text, params, children⟩ =>
    .node text params.length (ResolvedStep.mk text params children).isCall (outlines children)

/-- The outlines of resolved steps in order. -/
def ResolvedStep.outlines : List ResolvedStep → List Outline
  | [] => []
  | s :: ss => s.outline :: outlines ss

end

/-! ## Sound trees -/

/-- The tree refers only to the given names, and each call binds the names that its body refers
to, to arguments of its own. -/
inductive StepTree.Sound : List Text → StepTree → Prop
  | plain {names : List Text} {s : Step} {frame : Frame}
      (hs : ∀ name ∈ s.references, name ∈ names) : Sound names (.plain s frame)
  | call {names : List Text} {s : Step} {frame : Frame} {body : List StepTree}
      (hs : ∀ name ∈ s.references, name ∈ names) (hbound : frame.Bound)
      (hargs : ∀ arg ∈ frame.args, arg ∈ s.args) (hne : body ≠ [])
      (hbody : ∀ t ∈ body, Sound frame.names t) : Sound names (.call s frame body)

namespace StepTree

/-- Steps that are resolved one by one are resolved together. -/
theorem exists_resolveAll (scope : Scope) {ts : List StepTree}
    (h : ∀ t ∈ ts, ∃ r, t.resolve scope = .ok r ∧ r.outline = t.outline) :
    ∃ rs, resolveAll scope ts = .ok rs ∧ ResolvedStep.outlines rs = outlines ts := by
  induction ts with
  | nil => exact ⟨[], by rw [resolveAll], rfl⟩
  | cons t ts ih =>
    obtain ⟨⟨r, hr, ho⟩, hts⟩ := List.forall_mem_cons.1 h
    obtain ⟨rs, hrs, hos⟩ := ih hts
    refine ⟨r :: rs, by rw [resolveAll, hr, hrs]; rfl, ?_⟩
    rw [ResolvedStep.outlines, outlines, ho, hos]

/-- **Sound trees resolve** in a complete scope, and resolution keeps their outline. -/
theorem Sound.resolve {names : List Text} {t : StepTree} (h : t.Sound names) {scope : Scope}
    (hscope : scope.Complete) (hnames : scope.frame.names = names) :
    ∃ r, t.resolve scope = .ok r ∧ r.outline = t.outline := by
  induction h generalizing scope with
  | @plain names s frame hs =>
    obtain ⟨params, hparams, hlen⟩ := hscope.resolveArgs (hnames ▸ hs)
    refine ⟨⟨s.value, params, []⟩, by rw [StepTree.resolve, hparams]; rfl, ?_⟩
    rw [ResolvedStep.outline, outline, hlen]
    rfl
  | @call names s frame body hs hbound hargs hne hbody ih =>
    obtain ⟨params, hparams, hlen⟩ := hscope.resolveArgs (hnames ▸ hs)
    obtain ⟨inner, hinner, hin, hcomplete⟩ := hscope.enter hbound fun arg ha name hn =>
      hnames ▸ hs name (List.mem_flatMap.2 ⟨arg, hargs arg ha, hn⟩)
    obtain ⟨children, hchildren, houtlines⟩ := exists_resolveAll _ fun t ht =>
      ih t ht hcomplete hin
    -- a body with steps gives children, so both sides are calls
    have hcall : (ResolvedStep.mk s.value params children).isCall = true := by
      cases children with
      | cons r rs => rfl
      | nil =>
        cases body with
        | nil => exact absurd rfl hne
        | cons t ts => simp [ResolvedStep.outlines, outlines] at houtlines
    refine ⟨⟨s.value, params, children⟩, ?_, ?_⟩
    · simp only [StepTree.resolve, hparams, hinner, hchildren, bind, Except.bind, pure,
        Except.pure]
    · rw [ResolvedStep.outline, outline, hlen, houtlines, hcall]
      rfl

end StepTree

/-! ## Expansion -/

namespace Dictionary

/-- The dictionary after concept sources that were all accepted, each read with a file name and
files of its own. -/
inductive Loaded : List Text → Dictionary → Prop
  | empty : Loaded [] .empty
  | add {sources : List Text} {d d' : Dictionary} {source fileName : Text} {files : FileSource}
      {parsed : Parsed (List Concept)} (h : Loaded sources d)
      (hparse : Concept.parse source fileName files = .ok parsed)
      (hadd : d.add parsed.document = (d', none)) : Loaded (sources ++ [source]) d'

section
variable {d : Dictionary}

/-- A dictionary loaded from sources without the escaped pair is aligned and checked. -/
theorem Loaded.checked {sources : List Text} (h : Loaded sources d)
    (hp : ∀ source ∈ sources, ¬ StepText.escapedPair <:+: source) :
    d.Aligned ∧ ∀ c ∈ d.concepts, c.Checked ∧ c.steps ≠ [] := by
  induction h with
  | empty => exact ⟨aligned_empty, fun c hc => by cases hc⟩
  | @add sources d d' source fileName files parsed _ hparse hadd ih =>
    obtain ⟨haligned, hchecked⟩ := ih fun s hs => hp s (List.mem_append_left _ hs)
    refine ⟨by simpa [hadd] using haligned.add parsed.document, fun c hc => ?_⟩
    rw [concepts_add haligned hadd, List.mem_append] at hc
    rcases hc with hc | hc
    · exact hchecked c hc
    · exact Concept.checked_of_parse hparse (hp source (by simp)) c hc

/-- **Expansion is sound**: each call binds the formal parameters of its concept. -/
theorem sound_expandWithin (h : d.Aligned) (hc : ∀ c ∈ d.concepts, c.Checked ∧ c.steps ≠ [])
    {names : List Text} {s : Step} (hs : s.Checked names) {id : Nat}
    (hid : d.idOf? s.value = some id) (depth : Nat) :
    (d.expandWithin depth id s).Sound names := by
  induction depth generalizing names s id with
  | zero => exact .plain hs.declared
  | succ depth ih =>
    obtain ⟨c, hget, hsig⟩ := h.idOf?_eq_some_iff.1 hid
    obtain ⟨hchecked, hne⟩ := hc c (List.mem_of_getElem? hget)
    have hroom : c.formals.slots.length ≤ s.args.length := by
      rw [hs.filled, ← hsig]
      exact hchecked.formals
    rw [h.expandWithin_succ hget]
    refine .call hs.declared (Frame.bound_bind hroom) (Frame.args_bind_subset hroom)
      (by simpa using hne) fun t ht => ?_
    rw [Frame.names_bind]
    obtain ⟨step, hstep, rfl⟩ := List.mem_map.1 ht
    have hs' := hchecked.steps step hstep
    split
    case h_1 => exact .plain hs'.declared
    case h_2 nested hnested => exact ih hs' hnested

theorem sound_expand (h : d.Aligned) (hc : ∀ c ∈ d.concepts, c.Checked ∧ c.steps ≠ [])
    {names : List Text} {t : StepTree} (ht : t.Alone names) : (d.expand t).Sound names := by
  obtain ⟨s, rfl, hs⟩ := ht
  unfold expand
  split
  case h_1 => exact .plain hs.declared
  case h_2 id hid =>
    rw [expandStep, if_pos (h.idOf?_lt hid)]
    exact sound_expandWithin h hc hs hid d.size

end

end Dictionary

/-! ## Scenarios -/

namespace Document
variable {d : Document}

theorem mem_steps_mapSteps {f : StepTree → StepTree} {t : StepTree}
    (h : t ∈ (d.mapSteps f).steps) : ∃ t' ∈ d.steps, t = f t' := by
  simp only [steps, mapSteps, List.flatMap_map, List.mem_flatMap] at h
  obtain ⟨item, hitem, ht⟩ := h
  have hin : ∀ {t'}, t' ∈ itemSteps item → t' ∈ d.steps := fun ht' =>
    List.mem_flatMap.2 ⟨item, hitem, ht'⟩
  cases item with
  | step t' => exact ⟨t', hin (List.mem_singleton.2 rfl), List.mem_singleton.1 ht⟩
  | scenario heading items =>
    simp only [mapItemSteps, itemSteps, List.filterMap_map, List.mem_filterMap] at ht
    obtain ⟨i, hi, ht⟩ := ht
    cases i with
    | step t' =>
      cases ht
      exact ⟨t', hin (List.mem_filterMap.2 ⟨_, hi, rfl⟩), rfl⟩
    | comment | tags | dataTable | scenario | tearDown => cases ht
  | comment | tags | dataTable | tearDown => cases ht

theorem dataTable?_mapSteps (f : StepTree → StepTree) :
    (d.mapSteps f).dataTable? = d.dataTable? := by
  have h : Item.dataTable? ∘ mapItemSteps f = Item.dataTable? := by
    funext i
    cases i <;> rfl
  simp only [dataTable?, mapSteps, List.findSome?_map, h]

theorem names_mapSteps (f : StepTree → StepTree) : (d.mapSteps f).names = d.names := by
  rw [names, names, headers_eq, headers_eq, dataTable?_mapSteps]

/-- The steps that run for a scenario are steps of the document. -/
theorem mem_steps_of_mem_scheduled {s : Scenario} (hs : s ∈ d.scenarios) {t : StepTree}
    (h : t ∈ d.scheduled s) : t ∈ d.steps := by
  have hstep : ∀ item ∈ d.items, item.step? = some t → t ∈ d.steps := by
    intro item hitem ht
    cases item <;> cases ht
    exact List.mem_flatMap.2 ⟨_, hitem, List.mem_singleton.2 rfl⟩
  rw [scheduled, List.mem_append, List.mem_append] at h
  rcases h with (h | h) | h
  · obtain ⟨item, hitem, ht⟩ := List.mem_filterMap.1 h
    exact hstep item (List.takeWhile_subset _ hitem) ht
  · obtain ⟨item, hitem, hi⟩ := List.mem_filterMap.1 hs
    cases item <;> cases hi
    exact List.mem_flatMap.2 ⟨_, hitem, h⟩
  · obtain ⟨item, hitem, ht⟩ := List.mem_filterMap.1 h
    exact hstep item (List.dropWhile_subset _ hitem) ht

/-- A row that exists in the data table, if there is one with headers. -/
def ValidRow (d : Document) (row : Option Nat) : Prop :=
  ∀ index data, row = some index → d.dataTable? = some data → data.table.isInitialized →
    index < data.table.rowCount

/-- **The frame of a valid row is bound** and declares the headers of the data table. -/
theorem exists_rowFrame {row : Option Nat} (h : d.ValidRow row) :
    ∃ f, d.rowFrame row = .ok f ∧ f.Bound ∧ f.names = d.names := by
  unfold rowFrame names
  rw [headers_eq]
  cases hd : d.dataTable? with
  | none => exact ⟨.empty, rfl, Frame.bound_empty, rfl⟩
  | some data =>
    cases row with
    | none => exact ⟨_, rfl, Frame.bound_passthrough _, Frame.names_passthrough _⟩
    | some index => exact Frame.ofRow_bound (h index data rfl hd)

/-- **Accepted documents resolve.** If all sources were accepted and none contains the escaped
pair, every scenario is resolved for every valid row: first the contexts, then its steps, then the
teardown steps, each with the outline it has after expansion. -/
theorem resolveScenario_of_parse {sources : List Text} {dictionary : Dictionary}
    {source fileName : Text} {files : FileSource} {parsed : Parsed Document}
    {s : Scenario} {row : Option Nat} (hload : dictionary.Loaded sources)
    (hparse : Document.parse source fileName dictionary files = .ok parsed)
    (hplain : ∀ text ∈ source :: sources, ¬ StepText.escapedPair <:+: text)
    (hs : s ∈ parsed.document.scenarios) (hrow : parsed.document.ValidRow row) :
    ∃ resolved, parsed.document.resolveScenario s row = .ok resolved ∧
      ResolvedStep.outlines resolved = StepTree.outlines
        (parsed.document.contexts ++ s.steps ++ parsed.document.tearDownSteps) := by
  obtain ⟨haligned, hconcepts⟩ := hload.checked fun t ht => hplain t (List.mem_cons_of_mem _ ht)
  obtain ⟨frame, hframe, hbound, hnames⟩ := exists_rowFrame hrow
  have hsound : ∀ t ∈ parsed.document.scheduled s, t.Sound parsed.document.names := by
    intro t ht
    have hmem := mem_steps_of_mem_scheduled hs ht
    obtain ⟨tokens, read, htok, hread, hdoc⟩ := parse_eq_ok hparse
    rw [hdoc] at hmem ⊢
    obtain ⟨alone, halone, rfl⟩ := mem_steps_mapSteps hmem
    rw [Dictionary.expandDocument, names_mapSteps]
    have hfilled := Token.filled_of_tokenize htok (hplain source List.mem_cons_self)
    exact Dictionary.sound_expand haligned hconcepts
      (checked_of_ofTokens hread hfilled alone halone)
  obtain ⟨resolved, hresolved, houtlines⟩ :=
    StepTree.exists_resolveAll (.root frame) fun t ht =>
      (hsound t ht).resolve hbound hnames
  refine ⟨resolved, ?_, houtlines⟩
  simp only [resolveScenario, hframe, bind, Except.bind, hresolved]

/-! ## A call with a column of the data table -/

/-- A concept with a parameter. -/
def greetSource : Text := "# greet <name>\n* say <name>".toList

/-- A document that calls the concept with a column of its data table. -/
def guestSource : Text := "# Guests\n|guest|\n|ann|\n## Arrival\n* greet <guest>".toList

def noFiles : FileSource := ⟨fun _ => none⟩

/-- The concept of `greetSource`. -/
def greet : Concept where
  fileName := []
  heading := ⟨1, "greet \x7b\x7d".toList, "greet <name>".toList, [.dynamic "name".toList], false⟩
  formals := .ofNames ["name".toList]
  items :=
    [.step ⟨2, "say \x7b\x7d".toList, "say <name>".toList, [.dynamic "name".toList], false⟩]
  preComments := []

/-- The dictionary with that concept alone. -/
def greetings : Dictionary := ⟨[greet], [(greet.signature, 0)], [[none]]⟩

theorem add_greet : Dictionary.empty.add [greet] = (greetings, none) := by
  have hgrown : Dictionary.empty.grown [greet] = greetings := rfl
  have hback : greetings.backLink? = none := by
    simp [Dictionary.backLink?, Dictionary.size, greetings, Dictionary.findBackLink,
      Dictionary.explore]
  rw [Dictionary.add_eq, hgrown, hback]
  rfl

theorem loaded_greetings : greetings.Loaded [greetSource] := by
  have hdoc : (Concept.parse greetSource [] noFiles).toOption.map (·.document) = some [greet] := by
    decide +kernel
  obtain ⟨parsed, hparse, hdoc⟩ := exists_ok_of_map hdoc
  exact .add .empty hparse (hdoc ▸ add_greet)

theorem resolveScenario_of_parse_guests :
    ∃ parsed s resolved, Document.parse guestSource [] greetings noFiles = .ok parsed ∧
      s ∈ parsed.document.scenarios ∧
      parsed.document.resolveScenario s (some 0) = .ok resolved ∧
      ResolvedStep.outlines resolved = StepTree.outlines
        (parsed.document.contexts ++ s.steps ++ parsed.document.tearDownSteps) := by
  have hok : (Document.parse guestSource [] greetings noFiles).toOption.map (fun p =>
      (p.document.scenarios.length, p.document.dataTable?.map (·.table.rowCount))) =
      some (1, some 1) := by decide +kernel
  obtain ⟨parsed, hparse, hok⟩ := exists_ok_of_map hok
  obtain ⟨hone, hrows⟩ := Prod.mk.inj hok
  obtain ⟨s, hs⟩ := List.exists_mem_of_length_pos (l := parsed.document.scenarios) (by omega)
  have hrow : parsed.document.ValidRow (some 0) := by
    rintro index data ⟨⟩ hd -
    rw [hd] at hrows
    have hrows : data.table.rowCount = 1 := Option.some.inj hrows
    omega
  obtain ⟨resolved, hresolved, houtlines⟩ :=
    resolveScenario_of_parse loaded_greetings hparse (by decide +kernel) hs hrow
  exact ⟨parsed, s, resolved, hparse, hs, hresolved, houtlines⟩

end Document

end ScenarioBook
