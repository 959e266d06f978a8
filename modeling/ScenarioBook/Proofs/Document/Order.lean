import ScenarioBook.Proofs.Document.Accounted
import ScenarioBook.Proofs.Document.Flags
import ScenarioBook.Proofs.Token.Placed

/-!
# Documents keep the order of the source

The tokens of a source stand on increasing lines (`Token.pairwise_lineNo_of_tokenize`), and the
items of the document are filed in the order of their tokens (`Builder.filing_foldl`), so they do
too, after any number of tokens. For the steps of an accepted source the order is exact: they are
those of the step tokens behind the heading of the document, one for one (`Builder.Stepwise`).
`Document.in_source_order` says both, and that the flag of the open scenario goes with a last item
that is a scenario.
-/

set_option autoImplicit false

namespace ScenarioBook

/-! ## Lines of tokens -/

theorem Line.pairwise_no_ofSource (source : Text) :
    (ofSource source).Pairwise fun a b => a.no < b.no := by
  have hno : ((ofSource source).map Line.no).Pairwise (· < ·) := by
    rw [map_no_ofSource]
    exact List.pairwise_lt_range'
  exact List.pairwise_map.1 hno

/-- Tokens are ordered as their blocks are. -/
theorem pairwise_lineNo {tokens : List Token} {blocks : List (List Line)}
    (hcovers : List.Forall₂ Token.Covers tokens blocks)
    (hord : blocks.flatten.Pairwise fun a b => a.no < b.no) :
    tokens.Pairwise fun t u => t.lineNo < u.lineNo := by
  induction hcovers with
  | nil => exact .nil
  | @cons t block tokens blocks ht hrest ih =>
    rw [List.flatten_cons, List.pairwise_append] at hord
    obtain ⟨-, hord, hbefore⟩ := hord
    refine List.pairwise_cons.2 ⟨fun u hu => ?_, ih hord⟩
    obtain ⟨first, _, hfirst, -, hno, -⟩ := ht
    obtain ⟨ublock, hublock, ufirst, _, hufirst, -, huno, -⟩ := exists_of_forall₂_mem hrest hu
    rw [hno, huno]
    exact hbefore first (List.mem_of_head? hfirst) ufirst
      (List.mem_flatten.2 ⟨ublock, hublock, List.mem_of_head? hufirst⟩)

/-- **Each token stands on a later line than the one before it.** -/
theorem Token.pairwise_lineNo_of_tokenize {source : Text} {tokens : List Token}
    (h : tokenize source = .ok tokens) : tokens.Pairwise fun t u => t.lineNo < u.lineNo := by
  obtain ⟨blocks, hlines, howns⟩ := owns_of_tokenize h
  refine pairwise_lineNo (howns.imp fun _ _ => Token.Owns.covers) ?_
  rw [hlines]
  exact Line.pairwise_no_ofSource source

/-! ## Steps of tokens -/

namespace Token

/-- The step is that of the token, perhaps with tables below it. -/
def Makes (files : FileSource) (t : Token) (tree : StepTree) : Prop :=
  ∃ value args block, ∃ tables : List Table, t.content = .step value args block ∧
    tree.step = tables.foldl Step.addInlineTable (t.readStep .empty files value args block).1

section
variable {files : FileSource} {t : Token} {tree : StepTree}

theorem Makes.addInlineTable (h : t.Makes files tree) (table : Table) :
    t.Makes files (tree.mapStep (·.addInlineTable table)) := by
  obtain ⟨value, args, block, tables, hc, hstep⟩ := h
  refine ⟨value, args, block, tables ++ [table], hc, ?_⟩
  rw [Entry.step_mapStep, hstep, List.foldl_append]
  rfl

theorem Makes.addInlineRow (h : t.Makes files tree) (cells : List Cell) :
    t.Makes files (tree.mapStep (·.addInlineRow cells)) := by
  obtain ⟨value, args, block, tables, hc, hstep⟩ := h
  obtain ⟨tables', htables⟩ := Step.exists_addInlineRow_foldl
    (t.hasInlineTable_readStep .empty files value args block) tables cells
  exact ⟨value, args, block, tables', hc, by rw [Entry.step_mapStep, hstep, htables]⟩

end

end Token

namespace Document

theorem steps_mapDataTable (d : Document) (f : Table → Table) :
    (d.mapDataTable f).steps = d.steps := by
  have hitems : (d.mapDataTable f).items.map itemSteps = d.items.map itemSteps := by
    refine map_updateFirst fun i i' h => ?_
    cases i <;> cases h
    rfl
  rw [steps, steps, List.flatMap_def, List.flatMap_def, hitems]

theorem steps_mapSteps (d : Document) (f : StepTree → StepTree) :
    (d.mapSteps f).steps = d.steps.map f := by
  rw [steps_eq_flat, steps_eq_flat, flat_mapSteps, List.filterMap_map, List.map_filterMap]
  congr 1
  funext i
  cases i <;> rfl

end Document

namespace Builder

/-! ## Steps -/

section
variable {files : FileSource} {b b' : Builder} {t : Token} {seen : List Token}

/-- The steps are those of the step tokens behind the heading. -/
structure Stepwise (files : FileSource) (seen : List Token) (b : Builder) : Prop where
  current : b.place.current = Token.sectionAfter seen
  steps : List.Forall₂ (Token.Makes files) ((Token.afterHeading seen).filter Token.isStep)
    b.document.steps

theorem stepwise_start (files : FileSource) (fileName : Text) :
    Stepwise files [] (start fileName) := ⟨rfl, .nil⟩

theorem isSpecHeading_eq_false_of_isStep (ht : t.isStep) : t.isSpecHeading = false := by
  unfold Token.isStep at ht
  unfold Token.isSpecHeading
  split
  case h_1 hc => rw [hc] at ht; cases ht
  case h_2 => rfl

/-- A step token counts if it stands behind the heading. -/
theorem filter_afterHeading_concat :
    (Token.afterHeading (seen ++ [t])).filter Token.isStep =
      (Token.afterHeading seen).filter Token.isStep ++
        if t.isStep ∧ Token.sectionAfter seen ≠ .preamble then [t] else [] := by
  have hpre : Token.sectionAfter seen = .preamble ↔ Token.afterHeading seen = [] :=
    Token.sectionAfter_eq_preamble_iff
  rw [Token.afterHeading_concat]
  by_cases hnil : Token.afterHeading seen = []
  · rw [if_pos hnil, if_neg fun h => h.2 (hpre.2 hnil), hnil, Token.afterHeading_singleton]
    cases ht : t.isStep with
    | false => split <;> simp [ht]
    | true => simp [isSpecHeading_eq_false_of_isStep ht]
  · rw [if_neg hnil, List.filter_append]
    cases ht : t.isStep with
    | false => simp [ht]
    | true => simp [ht, mt hpre.1 hnil]

/-- The open step is changed in its place, or no step is. -/
theorem Stepwise.mapOpenStep (h : Stepwise files seen b)
    (hopen : (∃ tree, b.openStep? = some tree) ∨ b.Stranded) {f : Step → Step}
    (hf : ∀ t tree, Token.Makes files t tree → Token.Makes files t (tree.mapStep f)) :
    List.Forall₂ (Token.Makes files) ((Token.afterHeading seen).filter Token.isStep)
      (b.mapOpenStep f).document.steps := by
  rcases hopen with ⟨tree, htree⟩ | hstranded
  · obtain ⟨⟨before, after, hflat, hflat'⟩, -⟩ := exists_mapOpenStep htree f
    have hsteps := h.steps
    rw [Document.steps_eq_flat, hflat, List.filterMap_append] at hsteps
    rw [Document.steps_eq_flat, hflat', List.filterMap_append]
    obtain ⟨earlier, others, hsplit, hearlier, hothers⟩ := exists_of_forall₂_append hsteps
    obtain ⟨t, later, ht, hlater, rfl⟩ := List.forall₂_cons_right_iff.1 hothers
    rw [hsplit]
    exact List.rel_append hearlier (.cons (hf t tree ht) hlater)
  · rw [mapOpenStep_of_stranded hstranded]
    exact h.steps

theorem steps_add (hb : b.Placed) {i : Item} (hi : i.scenario? = none) :
    (b.add i).document.steps = b.document.steps ++ i.step?.toList := by
  rw [Document.steps_eq_flat, flat_add hb hi, List.filterMap_append, ← Document.steps_eq_flat]
  cases i <;> rfl

theorem steps_add_of_none (hb : b.Placed) {i : Item} (hi : i.scenario? = none)
    (hs : i.step? = none) : (b.add i).document.steps = b.document.steps := by
  rw [steps_add hb hi, hs]
  exact List.append_nil _

/-- **One token keeps the steps in order.** -/
theorem Stepwise.accepts (h : Stepwise files seen b) (hb : b.Placed) (hfiling : b.Filing seen)
    (ha : b.Accepts files t b') : Stepwise files (seen ++ [t]) b' := by
  refine ⟨sectionAfter_accepts h.current hfiling ha, ?_⟩
  rw [filter_afterHeading_concat, ← h.current]
  -- a token that is no step leaves the steps as they are, or changes one in its place
  have hother : ∀ {content : Token.Content}, t.content = content →
      (∀ value args block, content ≠ .step value args block) →
      List.Forall₂ (Token.Makes files) ((Token.afterHeading seen).filter Token.isStep)
        b'.document.steps →
      List.Forall₂ (Token.Makes files) ((Token.afterHeading seen).filter Token.isStep ++
        if t.isStep = true ∧ b.place.current ≠ .preamble then [t] else []) b'.document.steps := by
    intro content hc hne hsteps
    have ht : t.isStep = false := by
      unfold Token.isStep
      split
      case h_1 hstep => exact absurd (hc.symm.trans hstep) (hne _ _ _)
      case h_2 => rfl
    rwa [ht, if_neg fun h => Bool.false_ne_true h.1, List.append_nil]
  cases ha with
  | heading hc hnone => exact hother hc (by simp) h.steps
  | scenario hc hsome hnew =>
    refine hother hc (by simp) ?_
    exact (Document.steps_addItem (d := b.document) _).symm ▸ (List.append_nil _).symm ▸ h.steps
  | early hc hp =>
    rw [if_neg fun h => h.2 hp, List.append_nil]
    exact h.steps
  | @step value args block hc hp =>
    rw [if_pos ⟨by rw [Token.isStep, hc], hp⟩]
    refine (steps_add hb (i := .step _) rfl) ▸ List.rel_append h.steps (.cons ?_ .nil)
    exact ⟨value, args, block, [], hc, t.fst_readStep b.frame .empty files value args block⟩
  | @kept found place hk hplace hnoted =>
    refine hother rfl (fun value args block hc => by rw [Token.Keepable, hc] at hk; exact hk) ?_
    have hkeep := steps_add_of_none (hb.report found)
      (i := .comment ⟨t.asComment, t.lineNo⟩) rfl rfl
    exact hkeep ▸ h.steps
  | attach hc hp hopen =>
    refine hother hc (by simp) (h.mapOpenStep ?_ fun _ _ hmakes => hmakes.addInlineTable _)
    rcases hopen with hst | ⟨hcur, hsome⟩
    · exact (hb.stepOpen hst).imp_left Option.isSome_iff_exists.1
    · refine .inl (Option.isSome_iff_exists.1 ?_)
      rwa [openStep?, hcur]
  | openData hc hp hstep hnone =>
    refine hother hc (by simp) ?_
    exact (Document.steps_addItem (d := b.document) _).symm ▸ (List.append_nil _).symm ▸ h.steps
  | separator hc hopen hsep => exact hother hc (by simp) h.steps
  | row hc hopen hsep hstep =>
    refine hother hc (by simp) (h.mapOpenStep ?_ fun _ _ hmakes => hmakes.addInlineRow _)
    exact (hb.tableOpen hopen hstep).imp_left (Exists.imp fun tree => And.left)
  | dataRow hc hopen hsep hstep hp =>
    refine hother hc (by simp) ?_
    exact (Document.steps_mapDataTable b.document _).symm ▸ h.steps
  | tags hc hscenario hnone =>
    refine hother hc (by simp) ?_
    exact steps_add_of_none hb (i := .tags _) rfl rfl ▸ h.steps
  | reference hc href hp hnone =>
    refine hother hc (by simp) ?_
    exact (Document.steps_addItem (d := b.document) _).symm ▸ (List.append_nil _).symm ▸ h.steps
  | tearDown hc =>
    refine hother hc (by simp) ?_
    exact (Document.steps_addItem (d := b.document) _).symm ▸ (List.append_nil _).symm ▸ h.steps

end

end Builder

/-! ## All tokens -/

namespace Document

/-- The steps of an accepted source are those of its step tokens behind the heading. -/
theorem makes_of_parse {source fileName : Text} {tokens : List Token} {dictionary : Dictionary}
    {files : FileSource} {parsed : Parsed Document} (htok : tokenize source = .ok tokens)
    (h : Document.parse source fileName dictionary files = .ok parsed) :
    List.Forall₂ (Token.Makes files) ((Token.afterHeading tokens).filter Token.isStep)
      parsed.document.steps := by
  obtain ⟨tokens', read, htok', hread, rfl⟩ := parse_eq_ok_expand h
  cases htok.symm.trans htok'
  obtain ⟨b, ⟨-, -, hsteps⟩, rfl⟩ := inv_of_ofTokens
    (motive := fun seen b => b.Placed ∧ b.Filing seen ∧ Builder.Stepwise files seen b) hread
    ⟨Builder.placed_start _, Builder.filing_start _, Builder.stepwise_start files _⟩ <| by
      rintro seen b b' t - ⟨hp, hfiling, hsteps⟩ ha
      exact ⟨hp.accepts ha, hfiling.accepts ha, hsteps.accepts hp hfiling ha⟩
  rw [Dictionary.expandDocument, steps_mapSteps, List.forall₂_map_right_iff]
  refine hsteps.steps.imp ?_
  rintro t tree ⟨value, args, block, tables, hc, hstep⟩
  exact ⟨value, args, block, tables, hc, (dictionary.step_expand tree).trans hstep⟩

/-- **Documents keep the order of the source.** For every source that has tokens, and however many
of them were taken, also where errors were reported: the items stand on increasing lines, those of a
scenario behind its heading; and while the flag of the open scenario is set the last item of the
document is a scenario, and the flag of the teardown is not set. If the source is accepted, the
steps of the document are those of the step tokens behind its heading, one for one and in order. -/
theorem in_source_order {source : Text} {tokens : List Token} (htok : tokenize source = .ok tokens)
    (fileName : Text) (files : FileSource) :
    (∀ seen, seen <+: tokens →
      let b := seen.foldl (Builder.accept files) (.start fileName)
      let flags := Builder.flags files fileName seen
      (b.document.flat.map Item.lineNo).Pairwise (· < ·) ∧
      (.scenario ∈ flags →
        (∃ heading items, b.document.items.getLast? = some (.scenario heading items)) ∧
          .tearDown ∉ flags)) ∧
    ∀ dictionary parsed, Document.parse source fileName dictionary files = .ok parsed →
      List.Forall₂ (Token.Makes files) ((Token.afterHeading tokens).filter Token.isStep)
        parsed.document.steps := by
  refine ⟨fun seen hseen => ?_, fun dictionary parsed h => makes_of_parse htok h⟩
  have hfiling := Builder.filing_foldl files fileName seen
  have hagrees := Builder.agrees_flags files fileName seen
  refine ⟨?_, fun hs => ⟨?_, hagrees.not_tearDown hs⟩⟩
  · have hord := List.pairwise_map.2 (Token.pairwise_lineNo_of_tokenize htok)
    exact (hord.sublist (hseen.sublist.map Token.lineNo)).sublist hfiling.lines
  · obtain ⟨before, heading, items, hitems⟩ := hfiling.inScenario (hagrees.scenario.1 hs)
    exact ⟨heading, items, by rw [hitems, List.getLast?_concat]⟩

/-! ### A source with steps in every section -/

/-- A step before the heading, a context step with a table, a scenario, and a teardown. -/
def eveningSource : Text :=
  "* arrive\n# Evening\n* lay the table\n|for|\n|ann|\n## Supper\n* eat\n___\n* wash up\n".toList

/-- The scenario is open behind the seventh token, and three of the four steps are in the
document. -/
theorem in_source_order_evening :
    ∃ tokens parsed, tokenize eveningSource = .ok tokens ∧
      Document.parse eveningSource [] .empty noFiles = .ok parsed ∧
      parsed.document.steps.length = 3 ∧ .scenario ∈ Builder.flags noFiles [] (tokens.take 7) ∧
      (∃ b, b = (tokens.take 7).foldl (Builder.accept noFiles) (.start []) ∧
        (b.document.flat.map Item.lineNo).Pairwise (· < ·) ∧
        (∃ heading items, b.document.items.getLast? = some (.scenario heading items)) ∧
        .tearDown ∉ Builder.flags noFiles [] (tokens.take 7)) ∧
      List.Forall₂ (Token.Makes noFiles) ((Token.afterHeading tokens).filter Token.isStep)
        parsed.document.steps := by
  have hopen : ((tokenize eveningSource).toOption.any fun tokens =>
      decide (.scenario ∈ Builder.flags noFiles [] (tokens.take 7))) = true := by decide +kernel
  have hthree : (Document.parse eveningSource [] .empty noFiles).toOption.map
      (·.document.steps.length) = some 3 := by decide +kernel
  obtain ⟨tokens, htok, hopen⟩ := exists_ok_of_any hopen
  obtain ⟨parsed, hparse, hlen⟩ := exists_ok_of_map hthree
  have hflag := of_decide_eq_true hopen
  obtain ⟨hheads, hsteps⟩ := in_source_order htok [] noFiles
  obtain ⟨hlines, hscenario⟩ := hheads _ (List.take_prefix 7 tokens)
  exact ⟨tokens, parsed, htok, hparse, hlen, hflag, ⟨_, rfl, hlines, hscenario hflag⟩,
    hsteps _ _ hparse⟩

end Document

end ScenarioBook
