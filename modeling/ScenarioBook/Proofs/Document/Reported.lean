import ScenarioBook.Proofs.Document.Moves
import ScenarioBook.Proofs.Token.Reported

/-!
# What is reported about a document

A token adds diagnostics about itself and nothing else (`Builder.reports_accept`), so whatever is
reported while a document is built is about one of its tokens. What is wrong with the document as a
whole is reported on line one, or on the line of a token: of the heading, of the header of the data
table, or of the heading of a scenario (`Document.line_of_mem_flaws`).
-/

set_option autoImplicit false

namespace ScenarioBook

namespace Builder

/-- From `b` to `b'` diagnostics are added, all of them about the token. -/
def Reports (t : Token) (b b' : Builder) : Prop :=
  ∃ found, b'.diagnostics = b.diagnostics ++ found ∧ t.Reports found

section
variable {files : FileSource} {b b' : Builder} {t : Token}

theorem reports_of_same (h : b'.diagnostics = b.diagnostics) : Reports t b b' :=
  ⟨[], by rw [h, List.append_nil], Token.reports_nil⟩

theorem reports_report {found : List Diagnostic} (h : t.Reports found) :
    Reports t b (b.report found) := ⟨found, rfl, h⟩

theorem reports_problem (p : Problem) : Reports t b (b.report [t.problem p]) :=
  reports_report (Token.reports_problem p)

theorem reports_specHeading (title : Text) : Reports t b (b.specHeading t title) := by
  unfold specHeading
  split
  · exact reports_problem _
  · exact reports_of_same rfl

theorem reports_scenarioHeading (title : Text) : Reports t b (b.scenarioHeading t title) := by
  unfold scenarioHeading
  split
  · exact reports_problem _
  · split
    · exact reports_problem _
    · exact reports_of_same rfl

theorem reports_step (value : Text) (args : List RawArg) (block : Option Text) :
    Reports t b (b.step files t value args block) := by
  unfold step
  split
  · exact reports_of_same rfl
  · exact ⟨_, rfl, Token.reports_readStep value args block⟩

theorem reports_tableHeader (cells : List Text) : Reports t b (b.tableHeader t cells) := by
  unfold tableHeader
  split
  case h_1 => exact reports_of_same rfl
  case h_2 =>
    split
    · exact reports_of_same rfl
    · exact reports_problem _
  case h_3 => split <;> exact reports_of_same rfl
  case h_4 =>
    split
    · exact reports_of_same rfl
    · split
      · exact reports_of_same rfl
      · exact reports_problem _

theorem reports_tableRow (cells : List Text) : Reports t b (b.tableRow files t cells) := by
  unfold tableRow
  split
  · exact reports_of_same rfl
  · split
    · exact reports_of_same rfl
    · split
      · exact ⟨_, rfl, Token.reports_readRow cells⟩
      · exact ⟨_, rfl, Token.reports_readDataRow cells⟩

theorem reports_tags (values : List Text) : Reports t b (b.tags t values) := by
  unfold tags
  simp only
  split
  · split
    · exact reports_problem _
    · exact reports_of_same rfl
  · split
    · exact reports_problem _
    · exact reports_of_same rfl

theorem reports_dataTable (path : Text) : Reports t b (b.dataTable files t path) := by
  unfold dataTable
  split
  · exact reports_problem _
  · split
    · exact reports_problem _
    · split
      · exact reports_problem _
      · exact reports_of_same rfl

/-- **A token is reported on its own line.** -/
theorem reports_accept : Reports t b (b.accept files t) := by
  unfold accept
  split
  case h_1 title _ => exact reports_specHeading title
  case h_2 title _ => exact reports_scenarioHeading title
  case h_3 value args block _ => exact reports_step value args block
  case h_4 => exact reports_of_same rfl
  case h_5 row cells _ => exact reports_tableHeader cells
  case h_6 row cells _ => exact reports_tableRow cells
  case h_7 text values _ => exact reports_tags values
  case h_8 path _ => exact reports_dataTable path
  case h_9 => exact reports_of_same rfl

/-- The diagnostics so far are about the tokens so far, and so is the line of the heading. -/
structure Traces (tokens : List Token) (b : Builder) : Prop where
  found : AboutTokens tokens b.diagnostics
  heading : ∀ heading, b.document.heading = some heading →
    ∃ t ∈ tokens, t.lineNo = heading.lineNo

theorem Traces.accept {seen : List Token} (h : b.Traces seen) :
    (b.accept files t).Traces (seen ++ [t]) where
  found := by
    have hreported : Reports t b (b.accept files t) := reports_accept
    obtain ⟨found, hfound, hreports⟩ := hreported
    rw [hfound]
    exact (h.found.later [t]).append (hreports.aboutTokens (by simp))
  heading := by
    intro heading hheading
    rcases @heading_accept files b t with hsame | ⟨title, -, hset⟩
    · obtain ⟨u, hu, hline⟩ := h.heading heading (hsame ▸ hheading)
      exact ⟨u, List.mem_append_left _ hu, hline⟩
    · rw [hset] at hheading
      cases hheading
      exact ⟨t, by simp, rfl⟩

theorem traces_foldl (files : FileSource) (fileName : Text) (tokens : List Token) :
    (tokens.foldl (Builder.accept files) (.start fileName)).Traces tokens := by
  induction tokens using List.reverseRecOn with
  | nil => exact ⟨aboutTokens_nil, fun _ h => by cases h⟩
  | append_singleton tokens t ih =>
    rw [List.foldl_append, List.foldl_cons, List.foldl_nil]
    exact ih.accept

end

end Builder

/-! ## The whole document -/

namespace Document

theorem lineNo_mem_lines {d : Document} {i : Item} (h : i ∈ d.items) : i.lineNo ∈ d.lines := by
  rw [lines_eq]
  refine List.mem_flatten.2 ⟨i.lines, List.mem_map_of_mem h, ?_⟩
  cases i <;> exact List.mem_cons_self

/-- A flaw of the document is on line one, or on the line of a token. -/
theorem line_of_mem_flaws {fileName : Text} {files : FileSource} {tokens : List Token}
    {flaw : Problem × Nat}
    (h : flaw ∈ (tokens.foldl (Builder.accept files) (.start fileName)).document.flaws) :
    flaw.2 = 1 ∨ ∃ t ∈ tokens, t.lineNo = flaw.2 := by
  have htraces := Builder.traces_foldl files fileName tokens
  have hfiling := Builder.filing_foldl files fileName tokens
  generalize tokens.foldl (Builder.accept files) (.start fileName) = b at h htraces hfiling
  have hitem : ∀ i ∈ b.document.items, ∃ t ∈ tokens, t.lineNo = i.lineNo := fun i hi =>
    List.mem_map.1 (hfiling.lines.subset (lineNo_mem_lines hi))
  unfold flaws at h
  split at h
  case isTrue => exact .inl (by rw [List.mem_singleton.1 h])
  case isFalse =>
    split at h
    case h_1 => exact .inl (by rw [List.mem_singleton.1 h])
    case h_2 heading hheading =>
      split at h
      case isTrue =>
        rw [List.mem_singleton.1 h]
        exact .inr (htraces.heading heading hheading)
      case isFalse =>
        rcases List.mem_append.1 h with h | h
        · obtain ⟨table, htable, rfl⟩ := List.mem_map.1 h
          obtain ⟨data, hdata, rfl⟩ := List.mem_map.1 (List.mem_filter.1 htable).1
          obtain ⟨i, hi, hfound⟩ := List.exists_of_findSome?_eq_some (Option.mem_toList.1 hdata)
          cases i <;> cases hfound
          exact .inr (hitem _ hi)
        · obtain ⟨s, hs, rfl⟩ := List.mem_map.1 h
          obtain ⟨i, hi, hfound⟩ := List.mem_filterMap.1 (List.mem_filter.1 hs).1
          cases i <;> cases hfound
          exact .inr (hitem _ hi)

end Document

end ScenarioBook
