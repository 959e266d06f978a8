import Mathlib.Data.List.Induction
import ScenarioBook.Concept.Builder
import ScenarioBook.Proofs.Step.Checked

/-!
# What a token does to the concepts

`ConceptBuilder.Takes` lists what a token can do to the concepts and what it reports while it does
so, errors included, and `ConceptBuilder.Ends` what closing a concept can do. `takes_accept` and
`ends_finish` say that the lists are complete: nothing else opens the handlers of the tokens. So a
property of the builder needs one case for each entry, and holds after all tokens of a source if
each entry keeps it (`takes_induction`). What a source is accepted with is what the builder has
then (`Concept.run_of_parse`).
-/

set_option autoImplicit false

namespace ScenarioBook

/-- The token is not a step. -/
def Token.Stepless (t : Token) : Prop := ∀ value args block, t.content ≠ .step value args block

theorem Token.stepless_of_content {t : Token} {k : Token.Content} (hc : t.content = k)
    (hk : ∀ value args block, k ≠ .step value args block) : t.Stepless :=
  fun value args block h => hk value args block (hc.symm.trans h)

namespace ConceptBuilder

/-- What closing the open concept does. -/
inductive Ends (b : ConceptBuilder) : ConceptBuilder → Prop
  | idle (hcur : b.current = none) : Ends b b
  /-- A concept without steps is dropped. -/
  | drops {c : Concept} {tok : Token} (hcur : b.current = some (c, tok)) (hnil : c.steps = []) :
      Ends b ({ b with current := none }.report [tok.problem .emptyConcept])
  | keeps {c : Concept} {tok : Token} (hcur : b.current = some (c, tok)) (hne : c.steps ≠ []) :
      Ends b { b with finished := b.finished ++ [c], current := none }

theorem ends_finish (b : ConceptBuilder) : b.Ends b.finish := by
  unfold finish
  cases hcur : b.current with
  | none => exact .idle hcur
  | some ct =>
    obtain ⟨c, tok⟩ := ct
    simp only
    split
    case isTrue hnil => exact .drops hcur (List.isEmpty_iff.1 hnil)
    case isFalse hne => exact .keeps hcur (mt List.isEmpty_iff.2 hne)

/-- What a token can do to the concepts. -/
inductive Takes (files : FileSource) (b : ConceptBuilder) (t : Token) : ConceptBuilder → Prop
  /-- A heading closes the open concept and opens its own, if it holds parameters only. -/
  | opens {kind : HeadingKind} {title : Text} {scanned : StepText.Scanned}
      (hc : t.content = .heading kind title) (hscan : StepText.scan title = .ok scanned)
      (hdyn : ∀ raw ∈ scanned.args, raw.kind = .dynamic) :
      Takes files b t { b.finish with
        focus := .nothing
        current := some (b.finish.conceptOf t title scanned, t)
        preComments := [] }
  /-- Any other heading leaves no concept open. -/
  | closes {kind : HeadingKind} {title : Text} {p : Problem}
      (hc : t.content = .heading kind title) (herror : p.severity = .error)
      (hcode : p.code ≠ .e303) :
      Takes files b t ({ b.finish with focus := .nothing }.report [t.problem p])
  /-- A step goes to the open concept, also if it calls that. -/
  | adds {c : Concept} {tok : Token} {value : Text} {args : List RawArg} {block : Option Text}
      (hc : t.content = .step value args block) (hcur : b.current = some (c, tok)) :
      Takes files b t { b with
        current := some (c.addItem (.step (t.readStep c.formals files value args block).1), tok)
        focus := .step
        diagnostics := b.diagnostics ++ ((t.readStep c.formals files value args block).2 ++
          if (t.readStep c.formals files value args block).1.value = c.signature then
            [t.problem .selfCall] else []) }
  /-- Without an open concept a step is lost. -/
  | strayStep (hcur : b.current = none) : Takes files b t (b.report [t.problem .strayStep])
  /-- A header puts a table below the last step. -/
  | attaches {c : Concept} {tok : Token} {row : Text} {cells : List Text}
      (hc : t.content = .tableHeader row cells) (hcur : b.current = some (c, tok)) :
      Takes files b t { b with
        current := some
          (c.mapLatestStep (·.addInlineTable ((Table.empty t.lineNo).addHeaders cells)), tok)
        focus := .table }
  /-- Without a step above it a table is lost. -/
  | strayTable (hstep : t.Stepless) :
      Takes files b t (b.report [t.problem .strayConceptTable])
  /-- A row goes to the table of the last step. -/
  | fills {c : Concept} {tok : Token} {row : Text} {cells : List Text}
      (hc : t.content = .tableRow row cells) (hcur : b.current = some (c, tok))
      (hfocus : b.focus = .table) :
      Takes files b t { b with
        current := some
          (c.mapLatestStep (·.addInlineRow (t.readRow c.formals files cells).1), tok)
        diagnostics := b.diagnostics ++ (t.readRow c.formals files cells).2 }
  /-- The line below a header is passed over. -/
  | passes (hstep : t.Stepless) : Takes files b t b
  /-- All else goes to the open concept as a comment. -/
  | keeps {c : Concept} {tok : Token} (hstep : t.Stepless) (hcur : b.current = some (c, tok)) :
      Takes files b t { b with
        current := some (c.addItem (.comment ⟨t.asComment, t.lineNo⟩), tok)
        focus := .nothing }
  /-- Without an open concept a comment waits for one. -/
  | waits (hstep : t.Stepless) (hcur : b.current = none) :
      Takes files b t { b with
        preComments := b.preComments ++ [⟨t.asComment, t.lineNo⟩]
        focus := .nothing }

section
variable {files : FileSource} {b : ConceptBuilder} {t : Token}

theorem mapCurrent_of_some {c : Concept} {tok : Token} (h : b.current = some (c, tok))
    (f : Concept → Concept) : b.mapCurrent f = { b with current := some (f c, tok) } := by
  rw [mapCurrent, h]
  rfl

theorem takes_heading {kind : HeadingKind} {title : Text} (hc : t.content = .heading kind title) :
    Takes files b t (b.heading t title) := by
  unfold heading
  cases hscan : StepText.scan title with
  | error fault =>
    refine .closes hc rfl ?_
    cases fault <;> simp [Problem.code]
  | ok scanned =>
    simp only
    split
    case isTrue => exact .closes hc rfl (by simp [Problem.code])
    case isFalse hall => exact .opens hc hscan (by simpa using hall)

theorem takes_step {value : Text} {args : List RawArg} {block : Option Text}
    (hc : t.content = .step value args block) :
    Takes files b t (b.step files t value args block) := by
  unfold step
  cases hcur : b.current with
  | none => exact .strayStep hcur
  | some ct =>
    obtain ⟨c, tok⟩ := ct
    simp only [beq_iff_eq]
    rw [mapCurrent_of_some (b := b.report _) hcur]
    exact .adds hc hcur

theorem takes_tableHeader {row : Text} {cells : List Text}
    (hc : t.content = .tableHeader row cells) : Takes files b t (b.tableHeader t cells) := by
  unfold tableHeader
  split
  case isFalse => exact .strayTable (Token.stepless_of_content hc nofun)
  case isTrue hopen =>
    obtain ⟨⟨c, tok⟩, hcur⟩ := Option.isSome_iff_exists.1 hopen.1
    simp only
    rw [mapCurrent_of_some hcur]
    exact .attaches hc hcur

theorem takes_comment (hstep : t.Stepless) : Takes files b t (b.comment t) := by
  unfold comment
  cases hcur : b.current with
  | none =>
    have hwaits : Takes files b t _ := .waits hstep hcur
    rwa [hcur] at hwaits
  | some ct => exact .keeps hstep hcur

theorem takes_tableRow {row : Text} {cells : List Text} (hc : t.content = .tableRow row cells) :
    Takes files b t (b.tableRow files t cells) := by
  have hstep := Token.stepless_of_content hc nofun
  unfold tableRow
  split
  case isTrue => exact .passes hstep
  case isFalse =>
    cases hcur : b.current with
    | none => exact takes_comment hstep
    | some ct =>
      obtain ⟨c, tok⟩ := ct
      simp only
      split
      case isFalse => exact takes_comment hstep
      case isTrue hfocus =>
        rw [mapCurrent_of_some (b := b.report _) hcur]
        exact .fills hc hcur hfocus

/-- **The list is complete.** -/
theorem takes_accept (files : FileSource) (b : ConceptBuilder) (t : Token) :
    Takes files b t (b.accept files t) := by
  unfold accept
  split
  case h_1 hc => exact takes_heading hc
  case h_2 hc => exact takes_step hc
  case h_3 hc => exact takes_tableHeader hc
  case h_4 hc => exact takes_tableRow hc
  all_goals
    next hc => exact takes_comment (Token.stepless_of_content hc nofun)

/-- **What each token keeps holds after all of them.** The property may speak of the tokens seen
so far, which are the first of the source. -/
theorem takes_induction (files : FileSource) (tokens : List Token)
    {motive : List Token → ConceptBuilder → Prop} (hstart : motive [] b)
    (hstep : ∀ seen b t b', seen ++ [t] <+: tokens → motive seen b → Takes files b t b' →
      motive (seen ++ [t]) b') :
    motive tokens (tokens.foldl (accept files) b) := by
  induction tokens using List.reverseRecOn with
  | nil => exact hstart
  | append_singleton tokens t ih =>
    rw [List.foldl_append]
    have hbefore := ih fun seen b u b' hpre =>
      hstep seen b u b' (hpre.trans (List.prefix_append tokens [t]))
    exact hstep tokens _ t _ List.prefix_rfl hbefore (takes_accept files _ t)

end

/-- The builder after all tokens, with no concept open. -/
def run (files : FileSource) (fileName : Text) (tokens : List Token) : ConceptBuilder :=
  (tokens.foldl (accept files) (start fileName)).finish

end ConceptBuilder

/-- An accepted source is one that has tokens and gives no error, and its concepts are those of the
builder after these tokens. -/
theorem Concept.run_of_parse {source fileName : Text} {files : FileSource}
    {parsed : Parsed (List Concept)} (h : Concept.parse source fileName files = .ok parsed) :
    ∃ tokens, tokenize source = .ok tokens ∧
      Clean (ConceptBuilder.run files fileName tokens).diagnostics ∧
      parsed.document = (ConceptBuilder.run files fileName tokens).finished := by
  unfold Concept.parse at h
  cases htok : tokenize source with
  | error r => rw [htok] at h; cases h
  | ok tokens =>
    rw [htok] at h
    obtain ⟨hclean, rfl⟩ := settle_eq_ok h
    exact ⟨tokens, rfl, hclean, rfl⟩

end ScenarioBook
