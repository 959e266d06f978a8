import ScenarioBook.Proofs.Concept.Takes
import ScenarioBook.Proofs.Document.Update
import ScenarioBook.Proofs.Frame.Bound
import ScenarioBook.Proofs.Step.Checked
import ScenarioBook.Proofs.Token.Origin

/-!
# Checked concepts

A concept is `Checked` if its signature has a placeholder for each of its formal parameters and its
steps are checked against these. The builder keeps this for the finished concepts and the open one
as long as it reports no error (`ConceptBuilder.keeps_takes`), so every concept of an accepted
source is checked and has a step (`Concept.checked_of_parse`).
-/

set_option autoImplicit false

namespace ScenarioBook

/-- The signature has room for the formal parameters, and the steps refer only to these. -/
structure Concept.Checked (c : Concept) : Prop where
  formals : c.formals.slots.length ≤ placeholderCount c.signature
  steps : ∀ s ∈ c.steps, s.Checked c.formals.names

namespace Concept
variable {c : Concept}

theorem steps_addStep (c : Concept) (s : Step) : (c.addItem (.step s)).steps = c.steps ++ [s] := by
  simp [steps, addItem, ConceptItem.step?]

theorem steps_addComment (c : Concept) (comment : Comment) :
    (c.addItem (.comment comment)).steps = c.steps := by
  simp [steps, addItem, ConceptItem.step?]

theorem mem_steps_mapLatestStep {f : Step → Step} {s : Step}
    (h : s ∈ (c.mapLatestStep f).steps) : s ∈ c.steps ∨ ∃ s' ∈ c.steps, s = f s' := by
  obtain ⟨item, hitem, hs⟩ := List.mem_filterMap.1 h
  rcases mem_updateLast hitem with hitem | ⟨old, hold, hf⟩
  · exact .inl (List.mem_filterMap.2 ⟨item, hitem, hs⟩)
  · cases old with
    | comment => cases hf
    | step s' =>
      cases hf
      cases hs
      exact .inr ⟨s', List.mem_filterMap.2 ⟨_, hold, rfl⟩, rfl⟩

/-- What holds of every step, and of the new one, holds of every step with that. -/
theorem forall_steps_addStep {P : Step → Prop} (h : ∀ s ∈ c.steps, P s) {s : Step} (hs : P s) :
    ∀ s' ∈ (c.addItem (.step s)).steps, P s' := by
  rw [steps_addStep]
  exact List.forall_mem_append.2 ⟨h, List.forall_mem_singleton.2 hs⟩

/-- What holds of every step, and is kept by a change, holds of every step after that. -/
theorem forall_steps_mapLatestStep {P : Step → Prop} (h : ∀ s ∈ c.steps, P s) {f : Step → Step}
    (hf : ∀ s, P s → P (f s)) : ∀ s ∈ (c.mapLatestStep f).steps, P s := by
  intro s hs
  rcases mem_steps_mapLatestStep hs with hs | ⟨s', hs', rfl⟩
  · exact h s hs
  · exact hf s' (h s' hs')

theorem Checked.addComment (h : c.Checked) (comment : Comment) :
    (c.addItem (.comment comment)).Checked :=
  ⟨h.formals, by rw [steps_addComment]; exact h.steps⟩

theorem Checked.addStep (h : c.Checked) {s : Step} (hs : s.Checked c.formals.names) :
    (c.addItem (.step s)).Checked := ⟨h.formals, forall_steps_addStep h.steps hs⟩

theorem Checked.mapLatestStep (h : c.Checked) {f : Step → Step}
    (hf : ∀ s, s.Checked c.formals.names → (f s).Checked c.formals.names) :
    (c.mapLatestStep f).Checked := ⟨h.formals, forall_steps_mapLatestStep h.steps hf⟩

end Concept

/-! ## The builder -/

namespace ConceptBuilder

/-- The finished concepts are checked and have a step, the open one is checked. -/
structure Checked (b : ConceptBuilder) : Prop where
  finished : ∀ c ∈ b.finished, c.Checked ∧ c.steps ≠ []
  current : ∀ c t, b.current = some (c, t) → c.Checked

/-- Going from `b` to `b'` without an error keeps what is checked. -/
def Keeps (b b' : ConceptBuilder) : Prop :=
  Clean b'.diagnostics → Clean b.diagnostics ∧ (b.Checked → b'.Checked)

section
variable {b b' b'' : ConceptBuilder} {t : Token} {files : FileSource}

theorem Keeps.trans (h : Keeps b b') (h' : Keeps b' b'') : Keeps b b'' := by
  intro hc
  obtain ⟨hc', hk'⟩ := h' hc
  obtain ⟨hc'', hk⟩ := h hc'
  exact ⟨hc'', fun hb => hk' (hk hb)⟩

/-- A step that reports an error keeps everything there is to keep. -/
theorem keeps_problem {p : Problem} (hp : p.severity = .error) :
    Keeps b (b'.report [t.problem p]) := fun hc =>
  absurd (clean_append.1 hc).2 (not_clean_problem t hp)

/-- What changes only the open concept, and reports what its new part depends on. -/
theorem keeps_edited {c c' : Concept} {tok : Token} {found : List Diagnostic}
    (hcur : b.current = some (c, tok)) (hfin : b'.finished = b.finished)
    (hcur' : b'.current = some (c', tok)) (hdiag : b'.diagnostics = b.diagnostics ++ found)
    (hc : Clean found → c.Checked → c'.Checked) : Keeps b b' := by
  intro hclean
  rw [hdiag, clean_append] at hclean
  refine ⟨hclean.1, fun hb => ⟨hfin ▸ hb.finished, fun d t' hd => ?_⟩⟩
  cases hcur'.symm.trans hd
  exact hc hclean.2 (hb.current c tok hcur)

theorem keeps_finish (b : ConceptBuilder) : Keeps b b.finish := by
  have hends := b.ends_finish
  generalize b.finish = b' at hends
  cases hends with
  | idle hcur => exact fun hc => ⟨hc, id⟩
  | drops hcur hnil => exact keeps_problem rfl
  | keeps hcur hne =>
    refine fun hc => ⟨hc, fun hb => ⟨?_, fun c' t' h => by cases h⟩⟩
    exact List.forall_mem_append.2 ⟨hb.finished,
      List.forall_mem_singleton.2 ⟨hb.current _ _ hcur, hne⟩⟩

theorem checked_conceptOf {title : Text} {scanned : StepText.Scanned}
    (hp : placeholderCount scanned.value = scanned.args.length) :
    (b.conceptOf t title scanned).Checked := by
  refine ⟨?_, fun s hs => by cases hs⟩
  have := Frame.length_ofNames_le (scanned.args.map (·.text))
  simpa [conceptOf, Concept.signature, hp] using this

/-- **One token keeps what is checked**, unless it reports an error. -/
theorem keeps_takes (ht : t.Filled) (h : Takes files b t b') : Keeps b b' := by
  unfold Token.Filled at ht
  cases h with
  | opens hc hscan hdyn =>
    rw [hc] at ht
    refine (keeps_finish b).trans fun hclean => ⟨hclean, fun hb => ⟨hb.finished, fun c tok h => ?_⟩⟩
    cases h
    exact checked_conceptOf (ht _ hscan)
  | closes hc herror hcode => exact (keeps_finish b).trans (keeps_problem herror)
  | adds hc hcur =>
    rw [hc] at ht
    exact keeps_edited hcur rfl rfl rfl fun hfound h =>
      h.addStep (Token.checked_readStep ht (clean_append.1 hfound).1)
  | strayStep hcur => exact keeps_problem rfl
  | attaches hc hcur =>
    exact keeps_edited hcur rfl rfl (List.append_nil _).symm fun _ h =>
      h.mapLatestStep fun s hs => hs.addInlineTable (Table.references_empty_addHeaders _ _)
  | strayTable hstep => exact keeps_problem rfl
  | fills hc hcur hfocus =>
    exact keeps_edited hcur rfl rfl rfl fun hfound h =>
      h.mapLatestStep fun s hs => hs.addInlineRow fun name hn => Token.declared_readRow hfound hn
  | passes hstep => exact fun hclean => ⟨hclean, id⟩
  | keeps hstep hcur =>
    exact keeps_edited hcur rfl rfl (List.append_nil _).symm fun _ h => h.addComment _
  | waits hstep hcur => exact fun hclean => ⟨hclean, fun h => ⟨h.finished, h.current⟩⟩

theorem keeps_foldl (files : FileSource) {tokens : List Token} (h : ∀ t ∈ tokens, t.Filled) :
    Keeps b (tokens.foldl (accept files) b) := by
  induction tokens generalizing b with
  | nil => exact fun hc => ⟨hc, fun hb => hb⟩
  | cons t tokens ih =>
    obtain ⟨ht, hts⟩ := List.forall_mem_cons.1 h
    exact (keeps_takes ht (takes_accept files b t)).trans (ih hts)

theorem checked_start (fileName : Text) : (start fileName).Checked :=
  ⟨fun _ h => by (cases h), fun _ _ h => by cases h⟩

end

end ConceptBuilder

/-- **The concepts of an accepted source are checked and have a step.** -/
theorem Concept.checked_of_parse {source fileName : Text} {files : FileSource}
    {parsed : Parsed (List Concept)} (h : Concept.parse source fileName files = .ok parsed)
    (hp : ¬ StepText.escapedPair <:+: source) :
    ∀ c ∈ parsed.document, c.Checked ∧ c.steps ≠ [] := by
  obtain ⟨tokens, htok, hclean, hdoc⟩ := run_of_parse h
  rw [hdoc]
  have hkeeps := (ConceptBuilder.keeps_foldl (b := .start fileName) files
    (Token.filled_of_tokenize htok hp)).trans (ConceptBuilder.keeps_finish _)
  exact ((hkeeps hclean).2 (ConceptBuilder.checked_start fileName)).finished

end ScenarioBook
