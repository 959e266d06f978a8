import ScenarioBook.Proofs.ConceptFile.Writable
import ScenarioBook.Proofs.Layout.Tokens

/-!
# The tokens of written concepts

Reading what a layout writes for writable concepts gives the tokens that the concepts are made of
(`tokenize_concepts`). The items below a heading are read like those of a scenario (`lexed_items`),
and a heading leaves nothing of what stood before it, so each concept is read on its own
(`lexed_concept`).
-/

set_option autoImplicit false

namespace ScenarioBook

/-- The lines of the concept are read as these tokens. -/
def Concept.ReadAs (c : Concept) (ts : List Token) : Prop :=
  ∃ us t vs, ts = us ++ t :: vs ∧ AllReadAs {} (c.preComments.map .comment) us ∧
    t.content = .heading .spec c.heading.text ∧ AllReadAs {} (c.items.map ConceptItem.toItem) vs

/-- The lines of the concepts are read as these tokens. -/
def Concept.AllReadAs : List Concept → List Token → Prop
  | [], ts => ts = []
  | c :: cs, ts => ∃ us vs, ts = us ++ vs ∧ c.ReadAs us ∧ AllReadAs cs vs

section
variable {lay : Layout} {files : FileSource} {c : Concept} {cs : List Concept}

theorem tight_headingLine (h : c.Writable files) : Text.Tight ('#' :: ' ' :: c.heading.text) :=
  h.fits.heading.tight_text.append h.fits.heading.text_ne_nil (c := '#') (by decide) [' ']

theorem shape_headingLine (h : c.Writable files) {l : Line}
    (hl : l.text = '#' :: ' ' :: c.heading.text) : l.shape = .heading .spec c.heading.text := by
  rw [Line.shape, hl, Text.trim_eq_self_iff.2 (tight_headingLine h), Shape.ofTrimmed_specHeading,
    trim_blank_cons h.fits.heading.tight_text]

/-- **The lines of a concept are read as the concept.** Only comments before its heading look at
what stands before them. -/
theorem lexed_concept (h : c.Writable files) {lx : Lexer}
    (hm : c.preComments ≠ [] → lx.mode = .fresh) {ls rest : List Line}
    (hl : ls.map Line.text = lay.conceptLines c) (hrest : Fenceless rest) :
    ∃ ts lx', Lexed lx ls rest ts lx' ∧ c.ReadAs ts := by
  obtain ⟨pre, body, rfl, hpre, hbody⟩ := List.map_eq_append_iff.1 hl
  have hplain : Fenceless (body ++ rest) :=
    fenceless_of_head hbody (trim_ne_fence (c := '#') (by decide) (by decide)) rest
  obtain ⟨us, lx₁, hcomments, hus⟩ : ∃ us lx₁, Lexed lx pre (body ++ rest) us lx₁ ∧
      AllReadAs {} (c.preComments.map .comment) us := by
    cases hc : c.preComments with
    | nil =>
      rw [hc, List.map_nil, Layout.allLines] at hpre
      obtain rfl : pre = [] := List.map_eq_nil_iff.1 hpre
      exact ⟨[], lx, .refl lx _, by rw [List.map_nil, ScenarioBook.AllReadAs]⟩
    | cons comment comments =>
      rw [← hc]
      obtain ⟨us, lx₁, hlexed, hus, -⟩ := lexed_items
        (h.fits.preComments.imp fun _ _ => Item.FitsInConcept.legible) (hm (by simp [hc])) hpre
        hplain
      exact ⟨us, lx₁, hlexed, hus⟩
  obtain ⟨l, items, rfl, htext, hitems⟩ := List.map_eq_cons_iff.1 hbody
  have hheading : Lexed lx₁ [l] (items ++ rest) _ _ :=
    Lexer.lexed_heading h.fits.heading.text_ne_nil (shape_headingLine h htext)
  obtain ⟨vs, lx₂, hlexed, hvs, -⟩ := lexed_items
    (h.fits.items.imp fun _ _ => Item.FitsInConcept.legible)
    (show (lx₁.push l (.heading .spec c.heading.text) .fresh).mode = .fresh from rfl) hitems hrest
  exact ⟨_, lx₂, hcomments.trans (hheading.trans hlexed), us, _, vs, rfl, hus, rfl, hvs⟩

/-- Concepts without comments before them start with a heading. -/
theorem fenceless_concepts (hpre : ∀ c ∈ cs, c.preComments = []) {ls : List Line}
    (hl : ls.map Line.text = cs.flatMap lay.conceptLines) : Fenceless ls := by
  cases cs with
  | nil =>
    obtain rfl : ls = [] := List.map_eq_nil_iff.1 hl
    exact fun _ h => by cases h
  | cons c cs =>
    have hhead : ls.map Line.text = ('#' :: ' ' :: c.heading.text) ::
        (lay.allLines (c.items.map ConceptItem.toItem) ++ cs.flatMap lay.conceptLines) := by
      rw [hl, List.flatMap_cons, Layout.conceptLines, hpre c List.mem_cons_self, List.map_nil,
        Layout.allLines]
      rfl
    have := fenceless_of_head hhead (trim_ne_fence (c := '#') (by decide) (by decide)) []
    rwa [List.append_nil] at this

/-- **The lines of concepts are read in order**, if comments stand before the first one only. -/
theorem lexed_concepts (h : ∀ c ∈ cs, c.Writable files)
    (hpre : cs.Pairwise fun _ c => c.preComments = []) {lx : Lexer}
    (hm : (∃ c ∈ cs, c.preComments ≠ []) → lx.mode = .fresh) {ls : List Line}
    (hl : ls.map Line.text = cs.flatMap lay.conceptLines) :
    ∃ ts lx', Lexed lx ls [] ts lx' ∧ Concept.AllReadAs cs ts := by
  induction cs generalizing lx ls with
  | nil =>
    obtain rfl : ls = [] := List.map_eq_nil_iff.1 hl
    exact ⟨[], lx, .refl lx [], rfl⟩
  | cons c cs ih =>
    obtain ⟨hc, hcs⟩ := List.forall_mem_cons.1 h
    obtain ⟨hnone, hpre⟩ := List.pairwise_cons.1 hpre
    rw [List.flatMap_cons] at hl
    obtain ⟨ls, ls', rfl, hls, hls'⟩ := List.map_eq_append_iff.1 hl
    have hrest : Fenceless (ls' ++ []) := by
      rw [List.append_nil]
      exact fenceless_concepts hnone hls'
    obtain ⟨us, lx₁, hlexed, hus⟩ :=
      lexed_concept hc (fun hne => hm ⟨c, List.mem_cons_self, hne⟩) hls hrest
    obtain ⟨vs, lx₂, hlexed', hvs⟩ : ∃ vs lx₂, Lexed lx₁ ls' [] vs lx₂ ∧
        Concept.AllReadAs cs vs :=
      ih hcs hpre (fun ⟨c, hc, hne⟩ => absurd (hnone c hc) hne) hls'
    exact ⟨us ++ vs, lx₂, hlexed.trans hlexed', us, vs, rfl, hus, hvs⟩

theorem isLine_conceptLines (h : c.Writable files) : ∀ t ∈ lay.conceptLines c, IsLine t := by
  refine List.forall_mem_append.2 ⟨?_, List.forall_mem_cons.2 ⟨?_, ?_⟩⟩
  · exact isLine_allLines (fun _ _ h => isLine_legible h.legible) h.fits.preComments
  · refine isLine_of_tight (tight_headingLine h) ?_
    have := not_mem_written h.fits.heading.newline fun arg ha => (h.fits.heading.args arg ha).2.1
    simpa [Step.text] using this
  · exact isLine_allLines (fun _ _ h => isLine_legible h.legible) h.fits.items

/-- **Reading written concepts gives the concepts.** -/
theorem tokenize_concepts (lay : Layout) (h : ∀ c ∈ cs, c.Writable files)
    (hpre : cs.Pairwise fun _ c => c.preComments = []) :
    ∃ ts, tokenize (lay.concepts cs) = .ok ts ∧ Concept.AllReadAs cs ts := by
  have hread : (Line.ofSource (lay.concepts cs)).map Line.text = cs.flatMap lay.conceptLines := by
    rw [lay.concepts_eq h]
    refine Line.map_text_ofSource fun t ht => ?_
    obtain ⟨c, hc, ht⟩ := List.mem_flatMap.1 ht
    exact isLine_conceptLines (h c hc) t ht
  obtain ⟨ts, lx', hlexed, hts⟩ := lexed_concepts h hpre
    (fun _ => show Lexer.start.mode = .fresh from rfl) hread
  have hrun : Lexer.start.run (Line.ofSource (lay.concepts cs)) = lx' := by
    have := hlexed.run
    rwa [List.append_nil, Lexer.run] at this
  refine ⟨ts, ?_, hts⟩
  rw [tokenize, hrun, hlexed.diagnostics, hlexed.tokens]
  rfl

end

end ScenarioBook
