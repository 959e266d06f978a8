import ScenarioBook.Proofs.Concept.Takes

/-!
# The heading of a concept

A heading opens a concept once, and everything below it changes only the body. So whatever holds of
a concept when it is opened, and does not look at its body, holds of it for good
(`ConceptBuilder.Every.takes`). In particular a concept of an accepted
source is `Titled`: its signature, its arguments and its frame are those of its title, read as a
step text whose arguments are all parameters (`Concept.titled_of_parse`).
-/

set_option autoImplicit false

namespace ScenarioBook

namespace Concept

/-- The heading was read from its title, and all that stands in it are parameters. -/
structure Titled (c : Concept) (scanned : StepText.Scanned) : Prop where
  scan : StepText.scan c.heading.lineText = .ok scanned
  dynamic : ∀ raw ∈ scanned.args, raw.kind = .dynamic
  signature : c.signature = scanned.value
  args : c.heading.args = scanned.args.map fun raw => .dynamic raw.text
  untabled : c.heading.hasInlineTable = false
  formals : c.formals = .ofNames (scanned.args.map (·.text))

/-- The body does not matter to a property of concepts. -/
def Bodiless (P : Concept → Prop) : Prop := ∀ c items, P c → P { c with items := items }

theorem bodiless_titled : Bodiless fun c => ∃ scanned, c.Titled scanned := by
  rintro c items ⟨scanned, h⟩
  exact ⟨scanned, h.scan, h.dynamic, h.signature, h.args, h.untabled, h.formals⟩

end Concept

namespace ConceptBuilder

/-- The property holds of the concepts so far, the open one included. -/
structure Every (P : Concept → Prop) (b : ConceptBuilder) : Prop where
  finished : ∀ c ∈ b.finished, P c
  current : ∀ c t, b.current = some (c, t) → P c

section
variable {P : Concept → Prop} {b : ConceptBuilder} {t : Token} {files : FileSource}

theorem every_start (P : Concept → Prop) (fileName : Text) : (start fileName).Every P :=
  ⟨fun _ hc => absurd hc List.not_mem_nil, fun _ _ hc => nomatch hc⟩

/-- What changes only the open concept, and keeps the property of that. -/
theorem Every.edited (h : b.Every P) {b' : ConceptBuilder} {c c' : Concept} {tok : Token}
    (hcur : b.current = some (c, tok)) (hfin : b'.finished = b.finished)
    (hcur' : b'.current = some (c', tok)) (hc : P c → P c') : b'.Every P := by
  refine ⟨hfin ▸ h.finished, fun d tok' hd => ?_⟩
  cases hcur'.symm.trans hd
  exact hc (h.current c tok hcur)

theorem Every.finish (h : b.Every P) : b.finish.Every P := by
  have hends := b.ends_finish
  generalize b.finish = b' at hends
  cases hends with
  | idle hcur => exact h
  | drops hcur hnil => exact ⟨h.finished, fun _ _ hc => nomatch hc⟩
  | keeps hcur hne =>
    refine ⟨?_, fun _ _ hc => nomatch hc⟩
    exact List.forall_mem_append.2 ⟨h.finished,
      List.forall_mem_singleton.2 (h.current _ _ hcur)⟩

/-- **One token keeps a property that does not look at the body**, if the concept that it may open
has it. -/
theorem Every.takes {b' : ConceptBuilder} (hP : Concept.Bodiless P) (h : b.Every P)
    (htakes : Takes files b t b')
    (hopen : ∀ (b : ConceptBuilder) (title : Text) (scanned : StepText.Scanned),
      StepText.scan title = .ok scanned → (∀ raw ∈ scanned.args, raw.kind = .dynamic) →
      P (b.conceptOf t title scanned)) :
    b'.Every P := by
  cases htakes with
  | opens hc hscan hdyn =>
    refine ⟨h.finish.finished, fun c tok hcur => ?_⟩
    cases hcur
    exact hopen _ _ _ hscan hdyn
  | closes hc herror hcode => exact ⟨h.finish.finished, h.finish.current⟩
  | strayStep hcur => exact ⟨h.finished, h.current⟩
  | strayTable hstep => exact ⟨h.finished, h.current⟩
  | adds hc hcur => exact h.edited hcur rfl rfl fun hc => hP _ _ hc
  | attaches hc hcur => exact h.edited hcur rfl rfl fun hc => hP _ _ hc
  | fills hc hcur hfocus => exact h.edited hcur rfl rfl fun hc => hP _ _ hc
  | keeps hstep hcur => exact h.edited hcur rfl rfl fun hc => hP _ _ hc
  | passes hstep => exact h
  | waits hstep hcur => exact ⟨h.finished, h.current⟩

end

/-- After any tokens the concepts are titled, those of a refused source included. -/
theorem titled_foldl (files : FileSource) (tokens : List Token) (fileName : Text) :
    (tokens.foldl (accept files) (start fileName)).Every fun c => ∃ scanned, c.Titled scanned := by
  refine takes_induction files tokens
    (motive := fun _ b => b.Every fun c => ∃ scanned, c.Titled scanned) (every_start _ fileName) fun _ b t b' _ h htakes => ?_
  refine h.takes Concept.bodiless_titled htakes fun b title scanned hscan hdyn => ?_
  exact ⟨scanned, hscan, hdyn, rfl, by simp [conceptOf], rfl, rfl⟩

end ConceptBuilder

/-- **The concepts of an accepted source are titled.** -/
theorem Concept.titled_of_parse {source fileName : Text} {files : FileSource}
    {parsed : Parsed (List Concept)} (h : Concept.parse source fileName files = .ok parsed) :
    ∀ c ∈ parsed.document, ∃ scanned, c.Titled scanned := by
  obtain ⟨tokens, -, -, hdoc⟩ := run_of_parse h
  rw [hdoc]
  exact (ConceptBuilder.titled_foldl files tokens fileName).finish.finished

end ScenarioBook
