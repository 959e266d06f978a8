import ScenarioBook.Proofs.Dictionary.LoadOrder
import ScenarioBook.Proofs.Document.Unexpanded

/-!
# Expanding again

A dictionary only grows: whatever is added to it later, and whether it is refused, the concepts that
are there stay where they are (`Aligned.prefix_foldl_add`), so a signature keeps its id
(`Aligned.idOf?_of_prefix`). An expansion reads the step at the root of a tree and nothing else of
it (`Aligned.expand_of_step`). So a step that an earlier dictionary expanded is expanded by a later
one as if it had stood alone (`Aligned.expand_expand`), and the same holds of documents
(`expandDocument_later`).
-/

set_option autoImplicit false

namespace ScenarioBook

namespace Dictionary

section
variable {d d' : Dictionary} {t : StepTree}

/-! ## Growth -/

theorem Aligned.prefix_add (h : d.Aligned) (batch : List Concept) :
    d.concepts <+: (d.add batch).1.concepts := by
  obtain ⟨diagnostic, hadd, -⟩ | ⟨hdup, -, hadd⟩ := h.add_cases batch
  · rw [hadd]
  · rw [hadd, h.concepts_grown hdup]
    exact List.prefix_append _ _

/-- **Concepts stay where they are**, whatever is added. -/
theorem Aligned.prefix_foldl_add (h : d.Aligned) (history : List (List Concept)) :
    d.concepts <+: (history.foldl (fun d batch => (d.add batch).1) d).concepts := by
  induction history generalizing d with
  | nil => exact List.prefix_rfl
  | cons batch history ih => exact (h.prefix_add batch).trans (ih (h.add batch))

theorem prefix_after_append (history more : List (List Concept)) :
    (after history).concepts <+: (after (history ++ more)).concepts := by
  rw [after, after, List.foldl_append]
  exact (aligned_after history).prefix_foldl_add more

/-- A signature keeps its id. -/
theorem Aligned.idOf?_of_prefix (h : d.Aligned) (h' : d'.Aligned)
    (hp : d.concepts <+: d'.concepts) {signature : Text} {id : Nat}
    (hid : d.idOf? signature = some id) : d'.idOf? signature = some id := by
  obtain ⟨c, hc, hsig⟩ := h.idOf?_eq_some_iff.1 hid
  obtain ⟨rest, hrest⟩ := hp
  refine h'.idOf?_eq_some_iff.2 ⟨c, ?_, hsig⟩
  rw [← hrest, List.getElem?_append_left (h.idOf?_lt hid)]
  exact hc

/-! ## Expansion -/

/-- **A step with a known signature is expanded for its own sake**: what hung below it before leaves
no trace. -/
theorem Aligned.expand_of_step (h : d.Aligned) {t' : StepTree} (hstep : t'.step = t.step)
    (hknown : (d.idOf? t.step.value).isSome) : d.expand t' = d.expand t := by
  obtain ⟨id, hid⟩ := Option.isSome_iff_exists.1 hknown
  simp only [expand, hstep, hid, expandStep, if_pos (h.idOf?_lt hid)]

/-- **A later dictionary overwrites what an earlier one expanded.** -/
theorem Aligned.expand_expand (h : d.Aligned) (h' : d'.Aligned) (hp : d.concepts <+: d'.concepts)
    (t : StepTree) : d'.expand (d.expand t) = d'.expand t := by
  cases hid : d.idOf? t.step.value with
  | none => simp only [expand, hid]
  | some id =>
    refine h'.expand_of_step (d.step_expand t) ?_
    rw [h.idOf?_of_prefix h' hp hid]
    rfl

theorem Aligned.expandDocument_expandDocument (h : d.Aligned) (h' : d'.Aligned)
    (hp : d.concepts <+: d'.concepts) (document : Document) :
    d'.expandDocument (d.expandDocument document) = d'.expandDocument document := by
  have hexpand : (fun t => d'.expand (d.expand t)) = d'.expand := funext (h.expand_expand h' hp)
  rw [expandDocument, expandDocument, Document.mapSteps_mapSteps, hexpand, expandDocument]

end

end Dictionary

/-- A parsed document expanded again, with the same warnings. -/
def Parsed.expanded (d : Dictionary) (p : Parsed Document) : Parsed Document :=
  ⟨d.expandDocument p.document, p.warnings⟩

/-- Parsing expands what is read from the source at the end. -/
theorem Document.map_expanded_parse {d d' : Dictionary}
    (h : ∀ document, d'.expandDocument (d.expandDocument document) = d'.expandDocument document)
    (source fileName : Text) (files : FileSource) :
    (Document.parse source fileName d files).map (Parsed.expanded d') =
      Document.parse source fileName d' files := by
  unfold Document.parse
  cases tokenize source with
  | error r => rfl
  | ok tokens =>
    cases hread : ofTokens fileName files tokens with
    | error r => simp only [bind, Except.bind, hread, Except.map]
    | ok read =>
      simp only [bind, Except.bind, hread, pure, Except.pure, Except.map, Parsed.expanded, h]

namespace Dictionary

/-- **Expanding again is absorbed.** Take the dictionary after any history, and a later one, to
which any further batches were added, refused ones included. A document that was expanded with the
earlier one and then with the later one is the document expanded with the later one alone, whatever
hung below its steps before. So expanding twice with one dictionary is expanding once. And a source
that was parsed with the earlier dictionary gives, expanded with the later one, what parsing it with
the later one gives, be that a document with its warnings or a refusal. -/
theorem expandDocument_later (history more : List (List Concept)) :
    let early := after history
    let late := after (history ++ more)
    (∀ document, late.expandDocument (early.expandDocument document) =
      late.expandDocument document) ∧
    (∀ document, early.expandDocument (early.expandDocument document) =
      early.expandDocument document) ∧
    ∀ source fileName files,
      (Document.parse source fileName early files).map (Parsed.expanded late) =
        Document.parse source fileName late files := by
  intro early late
  have hearly : early.Aligned := aligned_after history
  have hlate : late.Aligned := aligned_after (history ++ more)
  have habsorbed := hearly.expandDocument_expandDocument hlate (prefix_after_append history more)
  exact ⟨habsorbed, hearly.expandDocument_expandDocument hearly List.prefix_rfl,
    Document.map_expanded_parse habsorbed⟩

end Dictionary

end ScenarioBook
