import ScenarioBook.Proofs.Concept.Checked
import ScenarioBook.Proofs.Concept.Titled
import ScenarioBook.Proofs.Document.Moves
import ScenarioBook.Proofs.Step.Tables
import ScenarioBook.Proofs.Token.Placed

/-!
# Where concepts stand

A concept keeps the name of its file, and its heading and its steps keep the number and the text of
their lines, whatever is put below them afterwards. So what the builder makes of the tokens of a
source stands in that source (`ConceptBuilder.StandsIn.takes`), and in particular every concept the
source is accepted with (`Concept.standsIn_of_parse`).
-/

set_option autoImplicit false

namespace ScenarioBook

/-- The step is on a line of the source: it has its number, and its text is a part of it. -/
def Step.StandsIn (s : Step) (source : Text) : Prop :=
  ∃ l ∈ Line.ofSource source, s.lineNo = l.no ∧ s.lineText <:+: l.text

/-- The concept was read from the source under this name: all its lines are lines of it. -/
structure Concept.StandsIn (c : Concept) (source fileName : Text) : Prop where
  named : c.fileName = fileName
  heading : c.heading.StandsIn source
  steps : ∀ s ∈ c.steps, s.StandsIn source

section
variable {source fileName : Text} {files : FileSource} {t : Token}

/-! ## Steps -/

theorem Step.StandsIn.addInlineTable {s : Step} (h : s.StandsIn source) (table : Table) :
    (s.addInlineTable table).StandsIn source := h

theorem Step.StandsIn.addInlineRow {s : Step} (h : s.StandsIn source) (cells : List Cell) :
    (s.addInlineRow cells).StandsIn source := by
  obtain ⟨l, hl, hno, htext⟩ := h
  exact ⟨l, hl, by rwa [lineNo_addInlineRow], by rwa [lineText_addInlineRow]⟩

theorem Token.lineText_readStep (t : Token) (frame : Frame) (files : FileSource) (value : Text)
    (raws : List RawArg) (block : Option Text) :
    (t.readStep frame files value raws block).1.lineText = t.lineText := by
  unfold Token.readStep
  split
  · rfl
  · split <;> rfl

/-- A step is on the line of its token. -/
theorem Token.Placed.readStep (h : t.Placed source) (frame : Frame) (files : FileSource)
    (value : Text) (raws : List RawArg) (block : Option Text) :
    (t.readStep frame files value raws block).1.StandsIn source := by
  obtain ⟨l, hl, hstarts⟩ := h.starts
  refine ⟨l, hl, (Builder.lineNo_readStep frame value raws block).trans hstarts.no, ?_⟩
  rw [t.lineText_readStep]
  exact hstarts.text

/-! ## Concepts -/

namespace Concept.StandsIn
variable {c : Concept}

theorem addStep (h : c.StandsIn source fileName) {s : Step} (hs : s.StandsIn source) :
    (c.addItem (.step s)).StandsIn source fileName :=
  ⟨h.named, h.heading, forall_steps_addStep h.steps hs⟩

theorem addComment (h : c.StandsIn source fileName) (comment : Comment) :
    (c.addItem (.comment comment)).StandsIn source fileName :=
  ⟨h.named, h.heading, by rw [steps_addComment]; exact h.steps⟩

theorem mapLatestStep (h : c.StandsIn source fileName) {f : Step → Step}
    (hf : ∀ s, s.StandsIn source → (f s).StandsIn source) :
    (c.mapLatestStep f).StandsIn source fileName :=
  ⟨h.named, h.heading, forall_steps_mapLatestStep h.steps hf⟩

end Concept.StandsIn

/-! ## The builder -/

namespace ConceptBuilder

/-- The concepts so far stand in the source, and the next one gets the same file name. -/
structure StandsIn (b : ConceptBuilder) (source fileName : Text) : Prop where
  named : b.fileName = fileName
  every : b.Every fun c => c.StandsIn source fileName

variable {b b' : ConceptBuilder}

theorem fileName_finish (b : ConceptBuilder) : b.finish.fileName = b.fileName := by
  have hends := b.ends_finish
  generalize b.finish = b' at hends
  cases hends <;> rfl

/-- The concept that a heading opens stands on the line of its token. -/
theorem standsIn_conceptOf (hname : b.fileName = fileName) (ht : t.Placed source)
    {kind : HeadingKind} {title : Text} (hc : t.content = .heading kind title)
    (scanned : StepText.Scanned) : (b.conceptOf t title scanned).StandsIn source fileName := by
  obtain ⟨l, hl, hstarts⟩ := ht.starts
  exact ⟨hname, ⟨l, hl, hstarts.no, hstarts.title kind title hc⟩, fun s hs => by cases hs⟩

/-- **A token of the source leaves all concepts in the source.** -/
theorem StandsIn.takes (h : b.StandsIn source fileName) (ht : t.Placed source)
    (htakes : Takes files b t b') : b'.StandsIn source fileName := by
  have hfinish : b.finish.fileName = fileName := (fileName_finish b).trans h.named
  cases htakes with
  | opens hc hscan hdyn =>
    refine ⟨hfinish, h.every.finish.finished, fun c tok hcur => ?_⟩
    cases hcur
    exact standsIn_conceptOf hfinish ht hc _
  | closes hc herror hcode => exact ⟨hfinish, h.every.finish.finished, h.every.finish.current⟩
  | adds hc hcur =>
    exact ⟨h.named, h.every.edited hcur rfl rfl fun hin => hin.addStep (ht.readStep _ _ _ _ _)⟩
  | attaches hc hcur =>
    exact ⟨h.named, h.every.edited hcur rfl rfl fun hin =>
      hin.mapLatestStep fun s hs => hs.addInlineTable _⟩
  | fills hc hcur hfocus =>
    exact ⟨h.named, h.every.edited hcur rfl rfl fun hin =>
      hin.mapLatestStep fun s hs => hs.addInlineRow _⟩
  | keeps hstep hcur =>
    exact ⟨h.named, h.every.edited hcur rfl rfl fun hin => hin.addComment _⟩
  | passes hstep => exact h
  | strayStep hcur => exact ⟨h.named, h.every.finished, h.every.current⟩
  | strayTable hstep => exact ⟨h.named, h.every.finished, h.every.current⟩
  | waits hstep hcur => exact ⟨h.named, h.every.finished, h.every.current⟩

end ConceptBuilder

/-- **The concepts of an accepted source stand in it.** -/
theorem Concept.standsIn_of_parse {parsed : Parsed (List Concept)}
    (h : Concept.parse source fileName files = .ok parsed) :
    ∀ c ∈ parsed.document, c.StandsIn source fileName := by
  obtain ⟨tokens, htok, -, hdoc⟩ := run_of_parse h
  have hplaced := placed_of_tokenize htok
  have hall := ConceptBuilder.takes_induction files tokens
    (motive := fun _ b => b.StandsIn source fileName)
    ⟨rfl, ConceptBuilder.every_start _ fileName⟩ fun seen b t b' hseen hin htakes =>
      hin.takes (hplaced t (hseen.subset (by simp))) htakes
  rw [hdoc]
  exact hall.every.finish.finished

end

end ScenarioBook
