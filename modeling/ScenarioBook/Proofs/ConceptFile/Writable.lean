import ScenarioBook.Proofs.Concept.Moves
import ScenarioBook.Proofs.Concept.Titled
import ScenarioBook.Proofs.Layout.Lexed

/-!
# Writable concepts

A concept `Fits` if its lines are read back: the comments before its heading, the heading, and the
items below it. Everything that is no step, table or heading is a comment in a concept file, so
comments fit wherever their lines are read as what they were kept for (`Comment.Legible`); only a
table line must find nothing that takes it. A heading is written as its text stands, without the
backslashes that a step gets before braces, so the two agree on text without braces
(`parameterizedText_eq`). What is written for such concepts is a list of lines (`concepts_eq`).
-/

set_option autoImplicit false

namespace ScenarioBook

/-! ## Comments and steps -/

/-- The comment is read back in a concept file, behind the items `before`. -/
def Comment.FitsInConcept (before : List Item) (c : Comment) : Prop :=
  c.Legible before ∧
    (c.shape = .tableLine → (trailAfter before).mode = .table ∧
      (∀ prev ∈ before.getLast?, prev.step?.isNone) ∧
      Row.isSeparator (Row.splitCells c.text.trim) = false)

/-- A comment or a step, read back in a concept behind the items `before`. -/
def Item.FitsInConcept (files : FileSource) (names : List Text) (before : List Item) :
    Item → Prop
  | .comment c => c.FitsInConcept before
  | .step t => t.step.Writable files names
  | .tags _ | .dataTable _ | .scenario _ _ | .tearDown _ => False

theorem Item.FitsInConcept.legible {files : FileSource} {names : List Text} {before : List Item}
    {i : Item} (h : i.FitsInConcept files names before) : i.Legible files names before := by
  cases i with
  | comment c => exact h.1
  | step t => exact h
  | tags | dataTable | scenario | tearDown => cases h

/-- Text without braces, or an argument. -/
def Fragment.Braceless : Fragment → Prop
  | .text t => ∀ c ∈ t, StepText.isReserved c = false
  | .param _ => True

/-- The lines of the concept are read back. -/
structure Concept.Fits (files : FileSource) (c : Concept) : Prop where
  heading : c.heading.Writable files c.formals.names
  braceless : ∀ f ∈ c.heading.fragments, f.Braceless
  preComments : FitAll (Item.FitsInConcept files []) [] (c.preComments.map .comment)
  items : FitAll (Item.FitsInConcept files c.formals.names) [] (c.items.map ConceptItem.toItem)

/-- The concept is read back from what is written for it. -/
structure Concept.Writable (files : FileSource) (c : Concept) : Prop where
  fits : c.Fits files
  titled : ∃ scanned, c.Titled scanned
  stepped : c.steps ≠ []
  avoids : c.AvoidsItself

section
variable (files : FileSource) (names : List Text)

instance (before : List Item) (text : Text) : DecidablePred (Shape.Legible before text)
  | .prose | .tableLine | .dataTable _ | .tearDown => inferInstanceAs (Decidable (_ ∧ _))
  | .underline _ => inferInstanceAs (Decidable (∀ prev ∈ before.getLast?, prev.isProse = false))
  | .tags _ => inferInstanceAs (Decidable True)
  | .blank | .heading _ _ | .step _ => inferInstanceAs (Decidable False)

instance (before : List Item) : DecidablePred (Comment.Legible before) :=
  fun _ => inferInstanceAs (Decidable (_ ∨ _))

instance (before : List Item) : DecidablePred (Comment.FitsInConcept before) :=
  fun _ => inferInstanceAs (Decidable (_ ∧ (_ → _ ∧ _ ∧ _)))

instance (before : List Item) : DecidablePred (Item.FitsInConcept files names before)
  | .comment c => inferInstanceAs (Decidable (c.FitsInConcept before))
  | .step t => inferInstanceAs (Decidable (t.step.Writable files names))
  | .tags _ | .dataTable _ | .scenario _ _ | .tearDown _ => inferInstanceAs (Decidable False)

instance : DecidablePred Fragment.Braceless
  -- by the list: a search through all characters would not evaluate
  | .text t => List.decidableBAll (StepText.isReserved · = false) t
  | .param _ => inferInstanceAs (Decidable True)

instance : DecidablePred (Concept.Fits files) := fun c =>
  decidable_of_iff
    (c.heading.Writable files c.formals.names ∧ (∀ f ∈ c.heading.fragments, f.Braceless) ∧
      FitAll (Item.FitsInConcept files []) [] (c.preComments.map .comment) ∧
      FitAll (Item.FitsInConcept files c.formals.names) [] (c.items.map ConceptItem.toItem))
    ⟨fun ⟨h1, h2, h3, h4⟩ => ⟨h1, h2, h3, h4⟩, fun ⟨h1, h2, h3, h4⟩ => ⟨h1, h2, h3, h4⟩⟩

end

/-! ## Headings -/

namespace Step
variable {s : Step}

/-- The text of a step without braces is the same with and without backslashes before braces. -/
theorem parameterizedText_eq (h : ∀ f ∈ s.fragments, f.Braceless) :
    s.parameterizedText = Text.trimEnd (s.fragments.flatMap Layout.fragment) := by
  have hescape : ∀ t : Text, (∀ c ∈ t, StepText.isReserved c = false) → escapeBraces t = t := by
    intro t ht
    induction t with
    | nil => rfl
    | cons c t ih =>
      obtain ⟨hc, ht⟩ := List.forall_mem_cons.1 ht
      rw [escapeBraces, hc, ih ht]
      rfl
  rw [parameterizedText]
  congr 1
  refine List.flatMap_congr fun f hf => ?_
  cases f with
  | text t => exact (hescape t (h _ hf)).symm
  | param arg => rfl

/-- A step whose arguments are all parameters has nothing below its line. -/
theorem line_of_dynamic {names : List Text} (h : s.args = names.map .dynamic) :
    s.below = [] ∧ s.line = s := by
  have htable : s.table? = none := by
    unfold table?
    split
    case h_1 t ht =>
      rw [h, List.getLast?_map] at ht
      obtain ⟨n, -, hn⟩ := Option.map_eq_some_iff.1 ht
      cases hn
    case h_2 => rfl
  have hup : s.upToTable = s := by rw [upToTable, htable]; rfl
  have hblock : s.block? = none := by
    unfold block?
    rw [hup]
    split
    case h_1 t ht =>
      rw [h, List.getLast?_map] at ht
      obtain ⟨n, -, hn⟩ := Option.map_eq_some_iff.1 ht
      cases hn
    case h_2 => rfl
  exact ⟨by rw [below, hblock, htable]; rfl, by rw [line, hblock, hup]; rfl⟩

end Step

namespace Concept
variable {files : FileSource} {c : Concept}

theorem Titled.dynamic_args {scanned : StepText.Scanned} (h : c.Titled scanned) :
    c.heading.args = (scanned.args.map (·.text)).map .dynamic := by
  rw [h.args, List.map_map]
  rfl

/-- **The heading is written as the text of its step.** -/
theorem Writable.parameterizedText (h : c.Writable files) :
    c.heading.parameterizedText = c.heading.text := by
  obtain ⟨scanned, ht⟩ := h.titled
  obtain ⟨-, hline⟩ := Step.line_of_dynamic ht.dynamic_args
  rw [Step.parameterizedText_eq h.fits.braceless, Step.fragments, StepText.flatMap_fragment,
    Step.text, hline]
  have htight := h.fits.heading.tight_text
  rw [Step.text, hline] at htight
  exact Text.trimEnd_eq_self_iff.2 htight.2

/-- **Scanning the written heading gives its value and its parameters.** -/
theorem Writable.scan_heading (h : c.Writable files) :
    ∃ names, StepText.scan c.heading.text =
        .ok ⟨c.signature, names.map fun n => ⟨.dynamic, n⟩⟩ ∧
      c.heading.args = names.map .dynamic ∧ c.formals = .ofNames names := by
  obtain ⟨scanned, ht⟩ := h.titled
  obtain ⟨-, hline⟩ := Step.line_of_dynamic ht.dynamic_args
  refine ⟨scanned.args.map (·.text), ?_, ht.dynamic_args, ht.formals⟩
  rw [h.fits.heading.scan_text, hline, ht.dynamic_args, List.filterMap_map]
  simp [Function.comp_def, Arg.raw?, Concept.signature]

end Concept

/-! ## Lines -/

namespace Layout

/-- The lines of items in order, without headings. -/
theorem allItems_map_comment (lay : Layout) (cs : List Comment) :
    lay.allItems (cs.map .comment) = cs.flatMap comment := by
  induction cs with
  | nil => rw [List.map_nil, allItems, List.flatMap_nil]
  | cons c cs ih => rw [List.map_cons, allItems, item, ih, List.flatMap_cons]

def conceptLines (lay : Layout) (c : Concept) : List Text :=
  lay.allLines (c.preComments.map .comment) ++
    ('#' :: ' ' :: c.heading.text) :: lay.allLines (c.items.map ConceptItem.toItem)

theorem concepts_eq (lay : Layout) {files : FileSource} {cs : List Concept}
    (h : ∀ c ∈ cs, c.Writable files) :
    lay.concepts cs = (cs.flatMap lay.conceptLines).flatMap asLine := by
  rw [concepts, List.flatMap_assoc]
  refine List.flatMap_congr fun c hc => ?_
  rw [concept, conceptLines, (h c hc).parameterizedText, ← lay.allItems_map_comment, allItems_eq,
    allItems_eq, List.flatMap_append, List.flatMap_cons, List.append_assoc]
  rfl

end Layout

end ScenarioBook
