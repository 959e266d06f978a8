import Mathlib.Data.List.Flatten
import ScenarioBook.Proofs.Concept.Moves
import ScenarioBook.Proofs.Dictionary.Binding
import ScenarioBook.Proofs.Document.Moves
import ScenarioBook.Proofs.Document.Order

/-!
# Accepted concepts are well formed

Each concept of an accepted source is `Concept.WellFormed`, the lines of all of them with their
items come in the order of the source, and only the first has comments before it
(`Concept.wellFormed_of_accepted`).

The lines are in order whether the source is accepted or not: what a token adds stands on its own
line, and what it changes stays where it is (`ConceptBuilder.sublist_lines`). That steps refer to
parameters only is known for each concept as long as no error is reported
(`ConceptBuilder.enclosed_run`). What the heading gives the concept is known from
`Concept.Titled`, and the rest from `Concept.ordered_of_parse`.
-/

set_option autoImplicit false

namespace ScenarioBook

/-! ## Parameters -/

/-- The slots of a frame are the distinct names in the order in which they come up first. -/
theorem Frame.ofNames_eq (names : List Text) :
    Frame.ofNames names = ⟨names.eraseDups.map fun name => (name, none)⟩ := by
  induction names using List.reverseRecOn with
  | nil => rfl
  | append_singleton names name ih =>
    have hdecl : (ofNames names).declares name = names.contains name := by
      rw [ih]
      simp [declares, Frame.names]
    rw [ofNames, List.foldl_append, ← ofNames, List.foldl_cons, List.foldl_nil, declare, hdecl,
      List.eraseDups_append]
    by_cases hname : name ∈ names
    · -- the slot that is there already is unbound
      have hremoved : [name].removeAll names = [] := by simp [List.removeAll, hname]
      rw [if_pos (List.contains_iff_mem.2 hname), hremoved, ih, setSlot]
      simp
    · have hkept : [name].removeAll names = [name] := by simp [List.removeAll, hname]
      rw [if_neg (mt List.contains_iff_mem.1 hname), hkept, ih]
      simp [List.eraseDups_cons]

namespace Concept

/-- The steps refer to parameters of the concept only. -/
def Enclosed (c : Concept) : Prop := ∀ s ∈ c.steps, s.Declared c.formals.names

/-- What readers of a concept rely on. -/
structure WellFormed (c : Concept) : Prop where
  steps : c.steps ≠ []
  /-- the heading holds parameters only -/
  args : c.heading.args = c.parameters.map .dynamic
  /-- each name has one slot, in the order in which the names come up first, and none is bound -/
  formals : c.formals.slots = c.parameters.eraseDups.map fun name => (name, none)
  enclosed : c.Enclosed
  unexpanded : ∀ tree, .step tree ∈ c.items.map ConceptItem.toItem → tree = .ofStep tree.step

end Concept

/-! ## Lines -/

def ConceptItem.lineNo : ConceptItem → Nat
  | .comment c => c.lineNo
  | .step s => s.lineNo

namespace Concept

/-- The lines of the heading and of the items. -/
def lines (c : Concept) : List Nat := c.heading.lineNo :: c.items.map ConceptItem.lineNo

theorem lines_addItem (c : Concept) (i : ConceptItem) :
    (c.addItem i).lines = c.lines ++ [i.lineNo] := by
  simp [lines, addItem]

theorem lines_mapLatestStep (c : Concept) {f : Step → Step} (hf : ∀ s, (f s).lineNo = s.lineNo) :
    (c.mapLatestStep f).lines = c.lines := by
  have hitems :
      (c.mapLatestStep f).items.map ConceptItem.lineNo = c.items.map ConceptItem.lineNo := by
    refine map_updateLast fun i i' h => ?_
    cases i <;> cases h
    exact hf _
  rw [lines, hitems]
  rfl

end Concept

namespace ConceptBuilder

section
variable {files : FileSource} {seen tokens : List Token} {b b' : ConceptBuilder} {t : Token}

/-- The lines of the concepts so far. -/
def lines (b : ConceptBuilder) : List Nat := b.opened.flatMap Concept.lines

/-- What changes only the open concept. -/
theorem sublist_lines_edited {c c' : Concept} {tok : Token} {more : List Nat}
    (hcur : b.current = some (c, tok)) (hfin : b'.finished = b.finished)
    (hcur' : b'.current = some (c', tok)) (hc : c'.lines.Sublist (c.lines ++ more)) :
    b'.lines.Sublist (b.lines ++ more) := by
  rw [lines, lines, opened_of_some hcur, opened_of_some hcur', hfin, List.flatMap_append,
    List.flatMap_append, List.append_assoc, List.flatMap_singleton, List.flatMap_singleton]
  exact (List.append_sublist_append_left _).2 hc

/-- A token adds its own line at most. -/
theorem sublist_lines_takes (h : Takes files b t b') :
    b'.lines.Sublist (b.lines ++ [t.lineNo]) := by
  have hsame : b.lines.Sublist (b.lines ++ [t.lineNo]) := List.sublist_append_left _ _
  have hclosed : (b.finish.finished.flatMap Concept.lines).Sublist b.lines :=
    (finish_spec b).2.flatMap _
  have hchanged : ∀ (c : Concept) {f : Step → Step}, (∀ s, (f s).lineNo = s.lineNo) →
      (c.mapLatestStep f).lines.Sublist (c.lines ++ [t.lineNo]) := by
    intro c f hf
    rw [c.lines_mapLatestStep hf]
    exact List.sublist_append_left _ _
  cases h with
  | opens hc hscan hdyn =>
    rw [lines, opened_of_some rfl, List.flatMap_append, List.flatMap_singleton]
    exact hclosed.append_right [t.lineNo]
  | closes hc herror hcode =>
    rw [lines, opened_of_none]
    · exact hclosed.trans hsame
    · exact (finish_spec b).1
  | adds hc hcur =>
    refine sublist_lines_edited hcur rfl rfl ?_
    rw [Concept.lines_addItem, ConceptItem.lineNo, Builder.lineNo_readStep]
  | attaches hc hcur => exact sublist_lines_edited hcur rfl rfl (hchanged _ fun s => rfl)
  | fills hc hcur hfocus =>
    exact sublist_lines_edited hcur rfl rfl (hchanged _ fun s => Step.lineNo_addInlineRow s _)
  | keeps hstep hcur =>
    refine sublist_lines_edited hcur rfl rfl ?_
    rw [Concept.lines_addItem, ConceptItem.lineNo]
  | strayStep hcur => exact hsame
  | strayTable hstep => exact hsame
  | passes hstep => exact hsame
  | waits hstep hcur => exact hsame

/-- **The lines of the concepts are lines of tokens, in the same order.** -/
theorem sublist_lines (files : FileSource) (fileName : Text) (tokens : List Token) :
    ((run files fileName tokens).finished.flatMap Concept.lines).Sublist
      (tokens.map Token.lineNo) := by
  have hlines := takes_induction files tokens (b := start fileName)
    (motive := fun seen b => b.lines.Sublist (seen.map Token.lineNo)) (List.Sublist.refl [])
    fun seen b t b' _ h htakes => ?_
  · exact ((finish_spec _).2.flatMap _).trans hlines
  · rw [List.map_append]
    exact (sublist_lines_takes htakes).trans (h.append_right _)

/-! ## References -/

/-- A token that reports no error leaves the steps within their concepts. -/
theorem enclosed_takes (htakes : Takes files b t b')
    (h : Clean b.diagnostics → b.Every Concept.Enclosed) (hclean : Clean b'.diagnostics) :
    b'.Every Concept.Enclosed := by
  cases htakes with
  | opens hc hscan hdyn =>
    -- the new concept has no steps yet
    refine ⟨(h (keeps_finish b hclean).1).finish.finished, fun c tok hcur => ?_⟩
    cases hcur
    exact fun s hs => absurd hs List.not_mem_nil
  | closes hc herror hcode => exact absurd (clean_append.1 hclean).2 (not_clean_problem t herror)
  | strayStep hcur => exact absurd (clean_append.1 hclean).2 (not_clean_problem t rfl)
  | strayTable hstep => exact absurd (clean_append.1 hclean).2 (not_clean_problem t rfl)
  | adds hc hcur =>
    obtain ⟨hb, hfound⟩ := clean_append.1 hclean
    exact (h hb).edited hcur rfl rfl fun hsteps =>
      Concept.forall_steps_addStep hsteps (Token.declared_readStep (clean_append.1 hfound).1)
  | attaches hc hcur =>
    exact (h hclean).edited hcur rfl rfl fun hsteps =>
      Concept.forall_steps_mapLatestStep hsteps fun s hs =>
        hs.addInlineTable (Table.references_empty_addHeaders _ _)
  | fills hc hcur hfocus =>
    obtain ⟨hb, hfound⟩ := clean_append.1 hclean
    exact (h hb).edited hcur rfl rfl fun hsteps =>
      Concept.forall_steps_mapLatestStep hsteps fun s hs =>
        hs.addInlineRow fun name hn => Token.declared_readRow hfound hn
  | keeps hstep hcur =>
    refine (h hclean).edited hcur rfl rfl fun hsteps => ?_
    rw [Concept.Enclosed, Concept.steps_addComment]
    exact hsteps
  | passes hstep => exact h hclean
  | waits hstep hcur => exact ⟨(h hclean).finished, (h hclean).current⟩

/-- **Without an error, steps refer to parameters of their concepts only.** -/
theorem enclosed_run {fileName : Text} (h : Clean (run files fileName tokens).diagnostics) :
    ∀ c ∈ (run files fileName tokens).finished, c.Enclosed := by
  have henclosed := takes_induction files tokens
    (motive := fun _ b => Clean b.diagnostics → b.Every Concept.Enclosed)
    (fun _ => every_start _ fileName) fun _ b t b' _ h htakes => enclosed_takes htakes h
  exact (henclosed (keeps_finish _ h).1).finish.finished

end

end ConceptBuilder

/-! ## Accepted sources -/

namespace Concept

/-- A titled concept has the parameters of its heading. -/
theorem Titled.args_eq {c : Concept} {scanned : StepText.Scanned} (h : c.Titled scanned) :
    c.heading.args = c.parameters.map .dynamic := by
  rw [h.args, h.parameters_eq, List.map_map]
  rfl

/-- **The concepts of an accepted source are well formed.** Each has a step, its heading holds
parameters only, its frame has one unbound slot for each of their names in the order in which they
come up first, its steps refer to these names only, in arguments and in cells, and none is expanded.
The lines of headings and items, of all concepts one after the other, are strictly increasing: so
the items of a concept are in order, below their heading and above the next. Only the first concept
can have comments before it. -/
theorem wellFormed_of_accepted {source fileName : Text} {files : FileSource}
    {parsed : Parsed (List Concept)} (h : Concept.parse source fileName files = .ok parsed) :
    (∀ c ∈ parsed.document, c.WellFormed) ∧
      (parsed.document.flatMap Concept.lines).Pairwise (· < ·) ∧
      parsed.document.Pairwise fun _ c => c.preComments = [] := by
  obtain ⟨hsteps, hfirst⟩ := ordered_of_parse h
  obtain ⟨tokens, htok, hclean, hdoc⟩ := run_of_parse h
  refine ⟨fun c hc => ?_, ?_, hfirst⟩
  · obtain ⟨scanned, htitled⟩ := titled_of_parse h c hc
    refine ⟨(hsteps c hc).1, htitled.args_eq, ?_, ?_, fun tree htree => ?_⟩
    · rw [htitled.formals_eq, Frame.ofNames_eq]
    · exact ConceptBuilder.enclosed_run hclean c (hdoc ▸ hc)
    · obtain ⟨item, -, hitem⟩ := List.mem_map.1 htree
      cases item <;> cases hitem
      rfl
  · have hlines : (tokens.map Token.lineNo).Pairwise (· < ·) :=
      List.pairwise_map.2 (Token.pairwise_lineNo_of_tokenize htok)
    rw [hdoc]
    exact hlines.sublist (ConceptBuilder.sublist_lines files fileName tokens)

/-- Two concepts. The heading of the first repeats a name, and its step has a table. -/
def welcomeSource : Text :=
  ("How to greet.\n# greet <name> and <name> in <place>\n* wave to <name>\n|where|\n|<place>|\n" ++
    "Then rest.\n## leave\n* bow\n").toList

theorem wellFormed_of_accepted_welcome :
    ∃ parsed, Concept.parse welcomeSource [] (.ofEntries []) = .ok parsed ∧
      parsed.document.map Concept.lines = [[2, 3, 6], [7, 8]] ∧
      (∀ c ∈ parsed.document, c.WellFormed) ∧
      (parsed.document.flatMap Concept.lines).Pairwise (· < ·) ∧
      parsed.document.Pairwise fun _ c => c.preComments = [] := by
  have hok : (Concept.parse welcomeSource [] (.ofEntries [])).toOption.map
      (·.document.map Concept.lines) = some [[2, 3, 6], [7, 8]] := by decide +kernel
  obtain ⟨parsed, hparse, hlines⟩ := exists_ok_of_map hok
  exact ⟨parsed, hparse, hlines, wellFormed_of_accepted hparse⟩

end Concept

end ScenarioBook
