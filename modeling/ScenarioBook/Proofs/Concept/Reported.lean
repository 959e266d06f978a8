import ScenarioBook.Proofs.Concept.Takes
import ScenarioBook.Proofs.Token.Reported

/-!
# What is reported about concepts

Whatever is reported while concepts are built is about one of their tokens
(`ConceptBuilder.aboutTokens_run`). A concept without steps is reported when the next one opens, on
the line of its own heading, which the builder keeps for that.
-/

set_option autoImplicit false

namespace ScenarioBook.ConceptBuilder

/-- The diagnostics so far are about the tokens so far, and the open heading is one of them. -/
structure Traces (tokens : List Token) (b : ConceptBuilder) : Prop where
  found : AboutTokens tokens b.diagnostics
  current : ∀ c t, b.current = some (c, t) → t ∈ tokens

section
variable {files : FileSource} {b b' : ConceptBuilder} {t : Token} {tokens : List Token}

theorem Traces.later (h : b.Traces tokens) (t : Token) : b.Traces (tokens ++ [t]) :=
  ⟨h.found.later [t], fun c u hcur => List.mem_append_left _ (h.current c u hcur)⟩

/-- A token of the list is reported. -/
theorem Traces.report (h : b.Traces tokens) (ht : t ∈ tokens) {found : List Diagnostic}
    (hfound : t.Reports found) : (b.report found).Traces tokens :=
  ⟨h.found.append (hfound.aboutTokens ht), h.current⟩

theorem Traces.ends (h : b.Traces tokens) (hends : b.Ends b') : b'.Traces tokens := by
  cases hends with
  | idle => exact h
  | @drops c u hcur =>
    have hnone : ({ b with current := none } : ConceptBuilder).Traces tokens :=
      ⟨h.found, fun _ _ hcur => by cases hcur⟩
    exact hnone.report (h.current c u hcur) (Token.reports_problem _)
  | keeps => exact ⟨h.found, fun _ _ hcur => by cases hcur⟩

/-- **A token is reported on its own line**, and an open heading on its line. -/
theorem Traces.takes (h : b.Traces tokens) (htakes : Takes files b t b') :
    b'.Traces (tokens ++ [t]) := by
  have ht : t ∈ tokens ++ [t] := by simp
  have hfinish := (h.later t).ends b.ends_finish
  have hlater := h.later t
  -- a change of the open concept keeps the token of its heading
  have hsame : ∀ {c c' : Concept} {tok : Token}, b.current = some (c, tok) →
      ∀ (d : Concept) (u : Token), some (c', tok) = some (d, u) → u ∈ tokens ++ [t] := by
    rintro c c' tok hcur d u heq
    cases heq
    exact hlater.current c _ hcur
  cases htakes with
  | opens => exact ⟨hfinish.found, fun _ _ hcur => by cases hcur; exact ht⟩
  | closes =>
    have hidle : ({ b.finish with focus := .nothing } : ConceptBuilder).Traces (tokens ++ [t]) :=
      ⟨hfinish.found, hfinish.current⟩
    exact hidle.report ht (Token.reports_problem _)
  | @adds c tok value args block hc hcur =>
    refine ⟨hlater.found.append (Token.Reports.aboutTokens (.append ?_ ?_) ht), hsame hcur⟩
    · exact Token.reports_readStep value args block
    · split
      · exact Token.reports_problem _
      · exact Token.reports_nil
  | strayStep | strayTable => exact hlater.report ht (Token.reports_problem _)
  | attaches hc hcur => exact ⟨hlater.found, hsame hcur⟩
  | @fills c tok row cells hc hcur =>
    exact ⟨hlater.found.append ((Token.reports_readRow cells).aboutTokens ht), hsame hcur⟩
  | passes => exact hlater
  | keeps hstep hcur => exact ⟨hlater.found, hsame hcur⟩
  | waits hstep hcur => exact ⟨hlater.found, hlater.current⟩

/-- **All that is reported about concepts is about their tokens.** -/
theorem aboutTokens_run (files : FileSource) (fileName : Text) (tokens : List Token) :
    AboutTokens tokens (run files fileName tokens).diagnostics := by
  have hstart : (start fileName).Traces [] := ⟨aboutTokens_nil, fun _ _ hcur => by cases hcur⟩
  have hall := takes_induction files tokens (motive := fun seen b => b.Traces seen) hstart
    fun _ _ _ _ _ h htakes => h.takes htakes
  exact (hall.ends (ends_finish _)).found

end

end ScenarioBook.ConceptBuilder
