import ScenarioBook.Concept.Builder
import ScenarioBook.Proofs.Document.Stretched

/-!
# Concepts from tokens at other offsets

What holds of the builder of documents holds of the builder of concepts: tokens at other offsets
give the same concepts, with the diagnostics at the other offsets
(`ConceptBuilder.accept_stretched`, `Concept.ofTokens_stretched`). The builder also keeps the token
of the open heading, for the diagnostic of a concept without steps; that token moves with the
others.
-/

set_option autoImplicit false

namespace ScenarioBook

namespace ConceptBuilder

/-- The same builder with its diagnostics and the token of the open heading at other offsets. -/
def stretched (g : Nat → Nat) (b : ConceptBuilder) : ConceptBuilder :=
  { b with
    current := b.current.map fun (c, t) => (c, t.stretched g)
    diagnostics := b.diagnostics.map (Diagnostic.stretched g) }

section
variable {g : Nat → Nat} {files : FileSource} (b : ConceptBuilder) (t : Token)

theorem report_stretched (found : List Diagnostic) :
    (b.stretched g).report (found.map (Diagnostic.stretched g)) = (b.report found).stretched g := by
  simp only [report, stretched, List.map_append]

theorem reportOne_stretched (p : Problem) :
    (b.stretched g).report [(t.stretched g).problem p] = (b.report [t.problem p]).stretched g :=
  b.report_stretched [t.problem p]

theorem isSome_current_stretched : (b.stretched g).current.isSome = b.current.isSome :=
  Option.isSome_map

theorem mapCurrent_stretched (f : Concept → Concept) :
    (b.stretched g).mapCurrent f = (b.mapCurrent f).stretched g := by
  simp only [mapCurrent, stretched, Option.map_map]
  rfl

theorem finish_stretched : (b.stretched g).finish = b.finish.stretched g := by
  unfold finish
  cases hcur : b.current with
  | none => simp only [stretched, hcur, Option.map_none]
  | some open_ =>
    obtain ⟨c, t⟩ := open_
    simp only [stretched, hcur, Option.map_some]
    split
    · exact ({ b with current := none } : ConceptBuilder).reportOne_stretched t _
    · rfl

theorem heading_stretched (title : Text) :
    (b.stretched g).heading (t.stretched g) title = (b.heading t title).stretched g := by
  simp only [heading, finish_stretched]
  cases StepText.scan title with
  | error fault =>
    exact ({ b.finish with focus := .nothing } : ConceptBuilder).reportOne_stretched t _
  | ok scanned =>
    simp only
    split
    · exact ({ b.finish with focus := .nothing } : ConceptBuilder).reportOne_stretched t _
    · rfl

theorem step_stretched (value : Text) (args : List RawArg) (block : Option Text) :
    (b.stretched g).step files (t.stretched g) value args block =
      (b.step files t value args block).stretched g := by
  unfold step
  cases hcur : b.current with
  | none =>
    have hcur' : (b.stretched g).current = none := by rw [stretched, hcur, Option.map_none]
    simp only [hcur']
    exact b.reportOne_stretched t _
  | some open_ =>
    obtain ⟨c, heading⟩ := open_
    have hcur' : (b.stretched g).current = some (c, heading.stretched g) := by
      rw [stretched, hcur]
      rfl
    simp only [hcur', Token.readStep_stretched, Token.foundStretched]
    generalize t.readStep c.formals files value args block = read
    have hself : (if read.1.value == c.signature then [(t.stretched g).problem .selfCall] else []) =
        (if read.1.value == c.signature then [t.problem .selfCall] else []).map
          (Diagnostic.stretched g) := by
      split <;> rfl
    rw [hself, ← List.map_append, report_stretched, mapCurrent_stretched]
    rfl

theorem tableHeader_stretched (cells : List Text) :
    (b.stretched g).tableHeader (t.stretched g) cells = (b.tableHeader t cells).stretched g := by
  unfold tableHeader
  rw [isSome_current_stretched]
  show (if b.current.isSome = true ∧ b.focus ≠ .nothing then _ else _) = _
  split
  · simp only [mapCurrent_stretched]
    rfl
  · exact b.reportOne_stretched t _

theorem comment_stretched :
    (b.stretched g).comment (t.stretched g) = (b.comment t).stretched g := by
  unfold comment
  show (if (b.stretched g).current.isSome then
    ({ b with focus := .nothing } : ConceptBuilder).stretched g |>.mapCurrent _ else _) = _
  rw [isSome_current_stretched]
  simp only [mapCurrent_stretched]
  split <;> rfl

theorem tableRow_stretched (cells : List Text) :
    (b.stretched g).tableRow files (t.stretched g) cells =
      (b.tableRow files t cells).stretched g := by
  unfold tableRow
  split
  · rfl
  · cases hcur : b.current with
    | none =>
      have hcur' : (b.stretched g).current = none := by rw [stretched, hcur, Option.map_none]
      simp only [hcur']
      exact b.comment_stretched t
    | some open_ =>
      obtain ⟨c, heading⟩ := open_
      have hcur' : (b.stretched g).current = some (c, heading.stretched g) := by
        rw [stretched, hcur]
        rfl
      simp only [hcur']
      show (if b.focus = .table then _ else _) = _
      split
      · simp only [Token.readRow_stretched, Token.foundStretched, report_stretched,
          mapCurrent_stretched]
      · exact b.comment_stretched t

/-- **A token at another offset does the same.** -/
theorem accept_stretched :
    (b.stretched g).accept files (t.stretched g) = (b.accept files t).stretched g := by
  have hcontent : (t.stretched g).content = t.content := rfl
  unfold accept
  rw [hcontent]
  cases t.content with
  | heading kind title => exact b.heading_stretched t title
  | step value args block => exact b.step_stretched t value args block
  | tableHeader row cells => exact b.tableHeader_stretched t cells
  | tableRow row cells => exact b.tableRow_stretched t cells
  | comment | tags | dataTable | tearDown => exact b.comment_stretched t

theorem foldl_stretched (tokens : List Token) :
    (tokens.map (Token.stretched g)).foldl (accept files) (b.stretched g) =
      (tokens.foldl (accept files) b).stretched g := by
  rw [List.foldl_map]
  exact List.foldl_hom (stretched g) fun b t => b.accept_stretched t

end

end ConceptBuilder

/-- **Tokens at other offsets give the same concepts**, with their diagnostics at other offsets. -/
theorem Concept.ofTokens_stretched {g : Nat → Nat} (fileName : Text) (files : FileSource)
    (tokens : List Token) :
    ofTokens fileName files (tokens.map (Token.stretched g)) =
      stretchOutcome g (Parsed.stretched g) (ofTokens fileName files tokens) := by
  have hrun : (tokens.map (Token.stretched g)).foldl (ConceptBuilder.accept files)
      (.start fileName) =
      (tokens.foldl (ConceptBuilder.accept files) (.start fileName)).stretched g :=
    (ConceptBuilder.start fileName).foldl_stretched tokens
  simp only [ofTokens, hrun, ConceptBuilder.finish_stretched]
  exact Parsed.settle_stretched _ _

end ScenarioBook
