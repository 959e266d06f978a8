import ScenarioBook.Document.Builder
import ScenarioBook.Proofs.Token.Stretched

/-!
# Documents from tokens at other offsets

The builder hands the span of a token on to the diagnostics about it and does not look at it. So
tokens at other offsets build the same document, with the diagnostics at the other offsets
(`Builder.accept_stretched`, one lemma for each kind of token), and the flaws of the document as a
whole are found on the same tokens (`Document.ofTokens_stretched`).
-/

set_option autoImplicit false

namespace ScenarioBook

/-! ## Reading arguments and cells -/

namespace Token

section
variable {g : Nat → Nat} {frame : Frame} {files : FileSource} (t : Token)

/-- A value with the diagnostics found beside it, at other offsets. -/
def foundStretched {α : Type} (g : Nat → Nat) (read : α × List Diagnostic) :
    α × List Diagnostic := (read.1, read.2.map (Diagnostic.stretched g))

theorem flatMap_foundStretched {α : Type} (reads : List (α × List Diagnostic)) :
    (reads.map (foundStretched g)).flatMap (·.2) =
      (reads.flatMap (·.2)).map (Diagnostic.stretched g) := by
  rw [List.flatMap_map, List.map_flatMap]
  rfl

theorem readArg_stretched (raw : RawArg) :
    (t.stretched g).readArg frame files raw =
      foundStretched g (t.readArg frame files raw) := by
  unfold readArg
  cases raw.kind with
  | literal => rfl
  | dynamic => simp only; split <;> rfl
  | special => simp only; split <;> rfl

theorem readStep_stretched (value : Text) (raws : List RawArg) (block : Option Text) :
    (t.stretched g).readStep frame files value raws block =
      foundStretched g (t.readStep frame files value raws block) := by
  have hargs : raws.map ((t.stretched g).readArg frame files) =
      (raws.map (t.readArg frame files)).map (foundStretched g) := by
    rw [List.map_map]
    exact List.map_congr_left fun raw _ => t.readArg_stretched raw
  have hvalues : (raws.map ((t.stretched g).readArg frame files)).map (·.1) =
      (raws.map (t.readArg frame files)).map (·.1) := by
    rw [hargs, List.map_map]
    rfl
  simp only [readStep, hvalues]
  rw [hargs, flatMap_foundStretched]
  cases block with
  | none => rfl
  | some contents =>
    simp only
    split
    · rfl
    · simp only [foundStretched, List.map_append]
      rfl

theorem readFileCell?_stretched (param : Text) :
    (t.stretched g).readFileCell? files param =
      (t.readFileCell? files param).map (foundStretched g) := by
  unfold readFileCell?
  split
  · split <;> rfl
  · rfl

theorem readCell_stretched (cell : Text) :
    (t.stretched g).readCell frame files cell = foundStretched g (t.readCell frame files cell) := by
  unfold readCell
  split
  · rfl
  · rw [readFileCell?_stretched]
    cases t.readFileCell? files _ with
    | some found => rfl
    | none => simp only [Option.map_none]; split <;> rfl

theorem readDataCell_stretched (cell : Text) :
    (t.stretched g).readDataCell files cell = foundStretched g (t.readDataCell files cell) := by
  unfold readDataCell
  cases bracketed? cell with
  | none => rfl
  | some name =>
    rw [Option.bind_some, Option.bind_some, readFileCell?_stretched]
    cases t.readFileCell? files name <;> rfl

/-- The cells of a row are the same, whichever way they are read. -/
theorem readCells_stretched {read read' : Text → Cell × List Diagnostic}
    (h : ∀ cell, read' cell = foundStretched g (read cell)) (cells : List Text) :
    ((cells.map read').map (·.1), (cells.map read').flatMap (·.2)) =
      foundStretched g ((cells.map read).map (·.1), (cells.map read).flatMap (·.2)) := by
  have hread : cells.map read' = (cells.map read).map (foundStretched g) := by
    rw [List.map_map]
    exact List.map_congr_left fun cell _ => h cell
  rw [hread, flatMap_foundStretched, List.map_map]
  rfl

theorem readRow_stretched (cells : List Text) :
    (t.stretched g).readRow frame files cells = foundStretched g (t.readRow frame files cells) :=
  readCells_stretched t.readCell_stretched cells

theorem readDataRow_stretched (cells : List Text) :
    (t.stretched g).readDataRow files cells = foundStretched g (t.readDataRow files cells) :=
  readCells_stretched t.readDataCell_stretched cells

end

end Token

/-! ## One token -/

/-- The same builder with its diagnostics at other offsets. -/
def Builder.stretched (g : Nat → Nat) (b : Builder) : Builder :=
  { b with diagnostics := b.diagnostics.map (Diagnostic.stretched g) }

namespace Builder

section
variable {g : Nat → Nat} {files : FileSource} (b : Builder) (t : Token)

theorem report_stretched (found : List Diagnostic) :
    (b.stretched g).report (found.map (Diagnostic.stretched g)) = (b.report found).stretched g := by
  simp only [report, stretched, List.map_append]

theorem reportOne_stretched (p : Problem) :
    (b.stretched g).report [(t.stretched g).problem p] = (b.report [t.problem p]).stretched g :=
  b.report_stretched [t.problem p]

theorem comment_stretched :
    (b.stretched g).comment (t.stretched g) = (b.comment t).stretched g := rfl

theorem ignore_stretched (p : Problem) :
    (b.stretched g).ignore (t.stretched g) p = (b.ignore t p).stretched g := by
  rw [ignore, reportOne_stretched]
  rfl

theorem specHeading_stretched (title : Text) :
    (b.stretched g).specHeading (t.stretched g) title = (b.specHeading t title).stretched g := by
  unfold specHeading
  show (if b.document.heading.isSome then _ else _) = _
  split
  · exact b.reportOne_stretched t _
  · rfl

theorem scenarioHeading_stretched (title : Text) :
    (b.stretched g).scenarioHeading (t.stretched g) title =
      (b.scenarioHeading t title).stretched g := by
  unfold scenarioHeading
  rw [show (b.stretched g).document.heading = b.document.heading from rfl,
    show (b.stretched g).namesake? title = b.namesake? title from rfl]
  split
  · exact b.reportOne_stretched t _
  · cases b.namesake? title with
    | some existing => exact b.reportOne_stretched t _
    | none => rfl

theorem step_stretched (value : Text) (args : List RawArg) (block : Option Text) :
    (b.stretched g).step files (t.stretched g) value args block =
      (b.step files t value args block).stretched g := by
  unfold step
  rw [Token.readStep_stretched]
  show (if b.place.current = .preamble then _ else _) = _
  split
  · rfl
  · simp only [Token.foundStretched, report_stretched]
    rfl

theorem tableHeader_stretched (cells : List Text) :
    (b.stretched g).tableHeader (t.stretched g) cells = (b.tableHeader t cells).stretched g := by
  have hplace : (b.stretched g).place = b.place := rfl
  have hdocument : (b.stretched g).document = b.document := rfl
  simp only [tableHeader, hplace, hdocument]
  cases b.place.current with
  | preamble => rfl
  | scenario =>
    simp only
    split
    · rfl
    · exact b.ignore_stretched t _
  | tearDown => simp only; split <;> rfl
  | context =>
    simp only
    split
    · rfl
    · split
      · rfl
      · exact b.ignore_stretched t _

theorem tableRow_stretched (cells : List Text) :
    (b.stretched g).tableRow files (t.stretched g) cells =
      (b.tableRow files t cells).stretched g := by
  have hplace : (b.stretched g).place = b.place := rfl
  have hframe : (b.stretched g).frame = b.frame := rfl
  simp only [tableRow, hplace, hframe, Token.readRow_stretched, Token.readDataRow_stretched,
    Token.foundStretched, report_stretched]
  split
  · rfl
  · split
    · rfl
    · split <;> rfl

theorem tags_stretched (values : List Text) :
    (b.stretched g).tags (t.stretched g) values = (b.tags t values).stretched g := by
  have hplace : (b.stretched g).place = b.place := rfl
  have hdocument : (b.stretched g).document = b.document := rfl
  simp only [tags, hplace, hdocument, ignore_stretched]
  split
  · split <;> rfl
  · split <;> rfl

theorem dataTable_stretched (path : Text) :
    (b.stretched g).dataTable files (t.stretched g) path =
      (b.dataTable files t path).stretched g := by
  have hplace : (b.stretched g).place = b.place := rfl
  have hdocument : (b.stretched g).document = b.document := rfl
  simp only [dataTable, hplace, hdocument, ignore_stretched, reportOne_stretched]
  cases Reference.dataTable files path with
  | error fault => rfl
  | ok table =>
    simp only
    split
    · rfl
    · split <;> rfl

/-- **A token at another offset does the same.** -/
theorem accept_stretched :
    (b.stretched g).accept files (t.stretched g) = (b.accept files t).stretched g := by
  have hcontent : (t.stretched g).content = t.content := rfl
  unfold accept
  rw [hcontent]
  cases t.content with
  | heading kind title =>
    cases kind with
    | spec => exact b.specHeading_stretched t title
    | scenario => exact b.scenarioHeading_stretched t title
  | comment => exact b.comment_stretched t
  | step value args block => exact b.step_stretched t value args block
  | tableHeader row cells => exact b.tableHeader_stretched t cells
  | tableRow row cells => exact b.tableRow_stretched t cells
  | tags text values => exact b.tags_stretched t values
  | dataTable path => exact b.dataTable_stretched t path
  | tearDown marker => rfl

theorem foldl_stretched (tokens : List Token) :
    (tokens.map (Token.stretched g)).foldl (accept files) (b.stretched g) =
      (tokens.foldl (accept files) b).stretched g := by
  rw [List.foldl_map]
  exact List.foldl_hom (stretched g) fun b t => b.accept_stretched t

end

end Builder

/-! ## The whole document -/

namespace Document

section
variable {g : Nat → Nat}

theorem flawDiagnostic_stretched (tokens : List Token) (flaw : Problem × Nat) :
    flawDiagnostic (tokens.map (Token.stretched g)) flaw =
      (flawDiagnostic tokens flaw).stretched g := by
  have hfind : (tokens.map (Token.stretched g)).find? (·.lineNo == flaw.2) =
      (tokens.find? (·.lineNo == flaw.2)).map (Token.stretched g) := List.find?_map
  rw [flawDiagnostic, flawDiagnostic, hfind]
  cases tokens.find? (·.lineNo == flaw.2) <;> rfl

/-- **Tokens at other offsets build the same document**, with its diagnostics at other offsets. -/
theorem ofTokens_stretched (fileName : Text) (files : FileSource) (tokens : List Token) :
    ofTokens fileName files (tokens.map (Token.stretched g)) =
      stretchOutcome g (Parsed.stretched g) (ofTokens fileName files tokens) := by
  have hrun : (tokens.map (Token.stretched g)).foldl (Builder.accept files) (.start fileName) =
      (tokens.foldl (Builder.accept files) (.start fileName)).stretched g :=
    (Builder.start fileName).foldl_stretched tokens
  simp only [ofTokens, hrun]
  generalize tokens.foldl (Builder.accept files) (.start fileName) = b
  have hflaws : b.document.flaws.map (flawDiagnostic (tokens.map (Token.stretched g))) =
      (b.document.flaws.map (flawDiagnostic tokens)).map (Diagnostic.stretched g) := by
    rw [List.map_map]
    exact List.map_congr_left fun flaw _ => flawDiagnostic_stretched tokens flaw
  rw [← Parsed.settle_stretched]
  simp only [Builder.stretched, hflaws, any_isError_stretched]
  split
  · rfl
  · rw [List.map_append]

end

end Document

end ScenarioBook
