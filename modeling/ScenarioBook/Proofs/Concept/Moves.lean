import ScenarioBook.Proofs.Concept.Checked
import ScenarioBook.Proofs.Document.Entry

/-!
# What a token does to the concepts

`ConceptBuilder.Move` lists what a token can do as long as it reports no error: it opens a concept,
adds a step to the open one, fills the table of its last step, is kept as a comment or is passed
over. `move_of_clean` says that the list is complete, so whatever each entry keeps holds at the end
of an accepted source (`Concept.exists_of_parse`). In particular each of its concepts has a step,
none calls itself, and comments are kept before the first one only (`Concept.ordered_of_parse`).
-/

set_option autoImplicit false

namespace ScenarioBook

/-! ## Moves -/

namespace ConceptBuilder

/-- What a token can do to the concepts without an error. -/
inductive Move (b : ConceptBuilder) (t : Token) : ConceptBuilder → Prop
  /-- A heading opens a concept. The one that was open has a step. -/
  | opens (title : Text) (scanned : StepText.Scanned)
      (hended : ∀ c tok, b.current = some (c, tok) → c.steps ≠ []) :
      Move b t { b.finish with
        focus := .nothing
        current := some (b.finish.conceptOf t title scanned, t)
        preComments := [] }
  /-- A step goes to the open concept, which it does not call. -/
  | adds {c : Concept} {tok : Token} {s : Step} (found : List Diagnostic)
      (hcur : b.current = some (c, tok)) (hflag : s.hasInlineTable = false)
      (hother : s.value ≠ c.signature) :
      Move b t { b with
        current := some (c.addItem (.step s), tok)
        focus := .step
        diagnostics := b.diagnostics ++ found }
  /-- A header puts a table below the last step, a row goes to that table. -/
  | fills {c : Concept} {tok : Token} {f : Step → Step} (found : List Diagnostic)
      (hcur : b.current = some (c, tok))
      (hf : (∃ table, f = (·.addInlineTable table)) ∨ ∃ cells, f = (·.addInlineRow cells)) :
      Move b t { b with
        current := some (c.mapLatestStep f, tok)
        focus := .table
        diagnostics := b.diagnostics ++ found }
  /-- A comment goes to the open concept. -/
  | keeps {c : Concept} {tok : Token} (comment : Comment) (hcur : b.current = some (c, tok)) :
      Move b t { b with current := some (c.addItem (.comment comment), tok), focus := .nothing }
  /-- Without an open concept a comment waits for one. -/
  | waits (comment : Comment) (hcur : b.current = none) :
      Move b t { b with preComments := b.preComments ++ [comment], focus := .nothing }
  | passes : Move b t b

section
variable {b b' : ConceptBuilder} {t : Token} {files : FileSource}

theorem steps_ne_nil_of_finish (h : Clean b.finish.diagnostics) :
    Clean b.diagnostics ∧ ∀ c tok, b.current = some (c, tok) → c.steps ≠ [] := by
  have hends := b.ends_finish
  generalize b.finish = b' at h hends
  cases hends with
  | idle hcur => exact ⟨h, fun c tok hc => nomatch hcur.symm.trans hc⟩
  | drops hcur hnil => exact absurd (clean_append.1 h).2 (not_clean_problem _ rfl)
  | keeps hcur hne =>
    refine ⟨h, fun c tok hc => ?_⟩
    cases hcur.symm.trans hc
    exact hne

/-- **Taking a token without an error is a move.** -/
theorem move_of_clean (htakes : Takes files b t b') (h : Clean b'.diagnostics) :
    Clean b.diagnostics ∧ b.Move t b' := by
  cases htakes with
  | opens hc hscan hdyn =>
    obtain ⟨hb, hended⟩ := steps_ne_nil_of_finish (b := b) h
    exact ⟨hb, .opens _ _ hended⟩
  | closes hc herror hcode => exact absurd (clean_append.1 h).2 (not_clean_problem t herror)
  | strayStep hcur => exact absurd (clean_append.1 h).2 (not_clean_problem t rfl)
  | strayTable hstep => exact absurd (clean_append.1 h).2 (not_clean_problem t rfl)
  | adds hc hcur =>
    obtain ⟨hb, hfound⟩ := clean_append.1 h
    refine ⟨hb, .adds _ hcur (t.hasInlineTable_readStep _ files _ _ _) fun heq => ?_⟩
    have hself := (clean_append.1 hfound).2
    rw [if_pos heq] at hself
    exact not_clean_problem t rfl hself
  | @attaches c tok row cells hc hcur =>
    have hmove := Move.fills (b := b) (t := t) [] hcur
      (.inl ⟨(Table.empty t.lineNo).addHeaders cells, rfl⟩)
    rw [List.append_nil] at hmove
    exact ⟨h, hmove⟩
  | @fills c tok row cells hc hcur hfocus =>
    have hmove := Move.fills (b := b) (t := t) (t.readRow c.formals files cells).2 hcur
      (.inr ⟨(t.readRow c.formals files cells).1, rfl⟩)
    rw [← hfocus] at hmove
    exact ⟨(clean_append.1 h).1, hmove⟩
  | passes hstep => exact ⟨h, .passes⟩
  | keeps hstep hcur => exact ⟨h, .keeps _ hcur⟩
  | waits hstep hcur => exact ⟨h, .waits _ hcur⟩

/-- What every move keeps, tokens without an error keep. -/
theorem of_moves {I : ConceptBuilder → Prop} (hmove : ∀ b t b', I b → Move b t b' → I b')
    {tokens : List Token} (h : Clean (tokens.foldl (accept files) b).diagnostics) :
    Clean b.diagnostics ∧ (I b → I (tokens.foldl (accept files) b)) := by
  induction tokens generalizing b with
  | nil => exact ⟨h, id⟩
  | cons t tokens ih =>
    obtain ⟨hclean, hrest⟩ := ih h
    obtain ⟨hb, hstep⟩ := move_of_clean (takes_accept files b t) hclean
    exact ⟨hb, fun hI => hrest (hmove b t _ hI hstep)⟩

end

end ConceptBuilder

/-- **What every move keeps holds at the end of an accepted source.** -/
theorem Concept.exists_of_parse {source fileName : Text} {files : FileSource}
    {parsed : Parsed (List Concept)} (h : Concept.parse source fileName files = .ok parsed)
    {I : ConceptBuilder → Prop} (hstart : I (.start fileName))
    (hmove : ∀ b t b', I b → ConceptBuilder.Move b t b' → I b') :
    ∃ b : ConceptBuilder, I b ∧ Clean b.finish.diagnostics ∧
      parsed.document = b.finish.finished := by
  obtain ⟨tokens, -, hclean, hdoc⟩ := run_of_parse h
  have hb := (ConceptBuilder.steps_ne_nil_of_finish hclean).1
  exact ⟨_, (ConceptBuilder.of_moves hmove hb).2 hstart, hclean, hdoc⟩

/-! ## Order -/

/-- The step was read with another value than `called`, before tables were put below it. -/
def Step.Avoids (called : Text) (s : Step) : Prop :=
  ∃ (own : Step) (tables : List Table), s = tables.foldl Step.addInlineTable own ∧
    own.hasInlineTable = false ∧ own.value ≠ called

/-- No step of the concept calls the concept, as far as its line says. -/
def Concept.AvoidsItself (c : Concept) : Prop := ∀ s ∈ c.steps, s.Avoids c.signature

namespace Step
variable {called : Text} {s : Step}

theorem Avoids.addInlineTable (h : s.Avoids called) (table : Table) :
    (s.addInlineTable table).Avoids called := by
  obtain ⟨own, tables, rfl, hflag, hother⟩ := h
  exact ⟨own, tables ++ [table], by rw [List.foldl_append]; rfl, hflag, hother⟩

theorem Avoids.addInlineRow (h : s.Avoids called) (cells : List Cell) :
    (s.addInlineRow cells).Avoids called := by
  obtain ⟨own, tables, rfl, hflag, hother⟩ := h
  obtain ⟨tables', htables⟩ := exists_addInlineRow_foldl hflag tables cells
  exact ⟨own, tables', htables, hflag, hother⟩

end Step

namespace Concept
variable {c : Concept}

theorem AvoidsItself.addStep (h : c.AvoidsItself) {s : Step} (hs : s.Avoids c.signature) :
    (c.addItem (.step s)).AvoidsItself := forall_steps_addStep h hs

theorem AvoidsItself.addComment (h : c.AvoidsItself) (comment : Comment) :
    (c.addItem (.comment comment)).AvoidsItself := by
  rw [AvoidsItself, steps_addComment]
  exact h

theorem AvoidsItself.mapLatestStep (h : c.AvoidsItself) {f : Step → Step}
    (hf : (∃ table, f = (·.addInlineTable table)) ∨ ∃ cells, f = (·.addInlineRow cells)) :
    (c.mapLatestStep f).AvoidsItself := by
  refine forall_steps_mapLatestStep h fun s hs => ?_
  rcases hf with ⟨table, rfl⟩ | ⟨cells, rfl⟩
  · exact hs.addInlineTable table
  · exact hs.addInlineRow cells

end Concept

namespace ConceptBuilder

/-- The concepts so far, the open one included. -/
def opened (b : ConceptBuilder) : List Concept := b.finished ++ b.current.toList.map (·.1)

theorem opened_of_some {b : ConceptBuilder} {c : Concept} {tok : Token}
    (h : b.current = some (c, tok)) : b.opened = b.finished ++ [c] := by
  rw [opened, h]
  rfl

theorem opened_of_none {b : ConceptBuilder} (h : b.current = none) : b.opened = b.finished := by
  rw [opened, h]
  exact List.append_nil _

/-- Closing the open concept drops it at most, and leaves none open. -/
theorem finish_spec (b : ConceptBuilder) :
    b.finish.current = none ∧ b.finish.finished.Sublist b.opened := by
  have hends := b.ends_finish
  generalize b.finish = b' at hends
  cases hends with
  | idle hcur => exact ⟨hcur, by rw [opened_of_none hcur]⟩
  | drops hcur hnil =>
    rw [opened_of_some hcur]
    exact ⟨rfl, List.sublist_append_left _ _⟩
  | keeps hcur hne =>
    rw [opened_of_some hcur]
    exact ⟨rfl, List.Sublist.refl _⟩

/-- The concepts so far call others only, and comments before a concept are kept with the first. -/
structure Ordered (b : ConceptBuilder) : Prop where
  avoids : ∀ c ∈ b.opened, c.AvoidsItself
  steps : ∀ c ∈ b.finished, c.steps ≠ []
  first : b.opened.Pairwise fun _ c => c.preComments = []
  unopened : b.current = none → b.finished = []
  waiting : b.current.isSome → b.preComments = []

section
variable {b b' : ConceptBuilder} {t : Token}

theorem ordered_start (fileName : Text) : (start fileName).Ordered where
  avoids := fun _ hc => by cases hc
  steps := fun _ hc => by cases hc
  first := .nil
  unopened := fun _ => rfl
  waiting := fun h => by cases h

theorem Ordered.preComments_eq (h : b.Ordered) (hne : b.opened ≠ []) : b.preComments = [] := by
  refine h.waiting (Option.isSome_iff_ne_none.2 fun hnone => hne ?_)
  rw [opened, hnone, h.unopened hnone]
  rfl

/-- What changes only the body of the open concept. -/
theorem Ordered.edited (h : b.Ordered) {c c' : Concept} {tok : Token}
    (hcur : b.current = some (c, tok)) (hfin : b'.finished = b.finished)
    (hcur' : b'.current = some (c', tok)) (hwait : b'.preComments = b.preComments)
    (hpre : c'.preComments = c.preComments) (hc : c.AvoidsItself → c'.AvoidsItself) :
    b'.Ordered := by
  have hopened := opened_of_some hcur
  have hopened' : b'.opened = b.finished ++ [c'] := hfin ▸ opened_of_some hcur'
  have havoids := h.avoids
  have hfirst := h.first
  rw [hopened, List.forall_mem_append, List.forall_mem_singleton] at havoids
  rw [hopened, List.pairwise_append] at hfirst
  refine ⟨?_, hfin ▸ h.steps, ?_, (fun hnone => ?_), fun _ => ?_⟩
  · rw [hopened', List.forall_mem_append, List.forall_mem_singleton]
    exact ⟨havoids.1, hc havoids.2⟩
  · rw [hopened', List.pairwise_append]
    refine ⟨hfirst.1, List.pairwise_singleton _ _, fun a ha d hd => ?_⟩
    rw [List.mem_singleton.1 hd, hpre]
    exact hfirst.2.2 a ha c (List.mem_singleton_self c)
  · rw [hcur'] at hnone
    cases hnone
  · rw [hwait]
    exact h.waiting (by rw [hcur]; rfl)

/-- Closing a concept that has a step leaves the same concepts. -/
theorem finish_eq (hended : ∀ c tok, b.current = some (c, tok) → c.steps ≠ []) :
    b.finish = { b with finished := b.opened, current := none } := by
  have hends := b.ends_finish
  generalize b.finish = b' at hends
  cases hends with
  | idle hcur =>
    rw [opened_of_none hcur, ← hcur]
  | drops hcur hnil => exact absurd hnil (hended _ _ hcur)
  | keeps hcur hne => rw [opened_of_some hcur]

theorem Ordered.forall_steps (h : b.Ordered)
    (hended : ∀ c tok, b.current = some (c, tok) → c.steps ≠ []) :
    ∀ c ∈ b.opened, c.steps ≠ [] := by
  intro c hc
  rw [opened, List.mem_append] at hc
  rcases hc with hc | hc
  · exact h.steps c hc
  · obtain ⟨⟨c, tok⟩, hcur, rfl⟩ := List.mem_map.1 hc
    exact hended c tok (Option.mem_toList.1 hcur)

/-- **Every move keeps the order.** -/
theorem Ordered.move (h : b.Ordered) (hmove : Move b t b') : b'.Ordered := by
  cases hmove with
  | opens title scanned hended =>
    rw [finish_eq hended]
    have hopened : ∀ c : Concept, ({ b with
        finished := b.opened, focus := .nothing, current := some (c, t),
        preComments := [] } : ConceptBuilder).opened = b.opened ++ [c] := fun c => rfl
    refine ⟨?_, h.forall_steps hended, ?_, (fun hnone => by cases hnone), fun _ => rfl⟩
    · rw [hopened, List.forall_mem_append, List.forall_mem_singleton]
      exact ⟨h.avoids, fun s hs => by cases hs⟩
    · rw [hopened, List.pairwise_append]
      refine ⟨h.first, List.pairwise_singleton _ _, fun a ha d hd => ?_⟩
      rw [List.mem_singleton.1 hd]
      exact h.preComments_eq (List.ne_nil_of_mem ha)
  | adds found hcur hflag hother =>
    exact h.edited hcur rfl rfl rfl rfl fun hc => hc.addStep ⟨_, [], rfl, hflag, hother⟩
  | fills found hcur hf => exact h.edited hcur rfl rfl rfl rfl fun hc => hc.mapLatestStep hf
  | keeps comment hcur => exact h.edited hcur rfl rfl rfl rfl fun hc => hc.addComment comment
  | waits comment hcur =>
    refine ⟨h.avoids, h.steps, h.first, h.unopened, fun hsome => ?_⟩
    rw [show b.current = none from hcur] at hsome
    cases hsome
  | passes => exact h

end

end ConceptBuilder

/-- **The concepts of an accepted source have a step, none calls itself, and comments are kept
before the first one only.** -/
theorem Concept.ordered_of_parse {source fileName : Text} {files : FileSource}
    {parsed : Parsed (List Concept)} (h : Concept.parse source fileName files = .ok parsed) :
    (∀ c ∈ parsed.document, c.steps ≠ [] ∧ c.AvoidsItself) ∧
      parsed.document.Pairwise fun _ c => c.preComments = [] := by
  obtain ⟨b, hb, hclean, hdoc⟩ := exists_of_parse h (ConceptBuilder.ordered_start fileName)
    fun _ _ _ => ConceptBuilder.Ordered.move
  have hended := (ConceptBuilder.steps_ne_nil_of_finish hclean).2
  rw [hdoc, ConceptBuilder.finish_eq hended]
  exact ⟨fun c hc => ⟨hb.forall_steps hended c hc, hb.avoids c hc⟩, hb.first⟩

end ScenarioBook
