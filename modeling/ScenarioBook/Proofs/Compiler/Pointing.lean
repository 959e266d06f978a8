import ScenarioBook.Dictionary
import ScenarioBook.Proofs.Concept.Reported
import ScenarioBook.Proofs.Document.Reported
import ScenarioBook.Proofs.Token.Faults
import ScenarioBook.Proofs.Token.Placed

/-!
# Diagnostics point into the source

A diagnostic about a source names one of its lines, shows a part of that line, and has labels that
start where the line starts and lie in the source, between characters (`Diagnostic.PointsInto`).
This holds of all that the lexer reports, whose diagnostics are about lines as they stand, and of
all that the builders report, whose diagnostics are about tokens (`pointing`). Only an empty source
has no line to point to: what is reported about it is on line one, with no text and no label.
-/

set_option autoImplicit false

namespace ScenarioBook

/-- The diagnostic points to a line of the source, or is on line one of a source without lines. -/
inductive Diagnostic.PointsInto (d : Diagnostic) (source : Text) : Prop
  | line {l : Line} {text : Text} (hl : l ∈ Line.ofSource source) (hno : d.lineNo = some l.no)
      (htext : d.lineText = some text) (hpart : text <:+: l.text) (hlabel : d.labels ≠ [])
      (hlabels : ∀ label ∈ d.labels, label.span.Within source ∧ label.span.start = l.start)
  | empty (hnone : Line.ofSource source = []) (hno : d.lineNo = some 1)
      (htext : d.lineText = some []) (hlabels : d.labels = [])

/-- The diagnostics that come with an outcome: those it was rejected with, or the warnings. -/
def reported {α : Type} : Except Rejection (Parsed α) → List Diagnostic
  | .error rejection => rejection.diagnostics
  | .ok parsed => parsed.warnings

section
variable {source : Text}

theorem reported_settle {α : Type} (document : α) (found : List Diagnostic) :
    reported (Parsed.settle document found) = found := by
  unfold Parsed.settle
  split <;> rfl

/-! ## Lines and tokens -/

/-- A problem with a part of a line points to the line. -/
theorem located_pointsInto {l : Line} {text : Text} {span : Span} (p : Problem)
    (hl : l ∈ Line.ofSource source) (hpart : text <:+: l.text) (hspan : span.Within source)
    (hstart : span.start = l.start) : (p.located l.no text span).PointsInto source := by
  refine .line hl rfl rfl hpart (List.cons_ne_nil _ _) fun label hlabel => ?_
  obtain rfl := List.mem_singleton.1 hlabel
  exact ⟨hspan, hstart⟩

theorem Line.within (l : Line) (hl : l ∈ Line.ofSource source) : l.span.Within source :=
  ⟨l.span_start_le_stop, (Line.standsIn_of_mem hl).boundary_start,
    (Line.standsIn_of_mem hl).boundary_stop⟩

/-- What is wrong with the lines points to them. -/
theorem pointsInto_of_lexer {d : Diagnostic} (h : d ∈ lexerDiagnostics source) :
    d.PointsInto source := by
  obtain ⟨⟨l, p⟩, hfault, rfl⟩ := List.mem_map.1 h
  have hl := Lexer.mem_of_mem_allFaults hfault
  exact located_pointsInto p hl (List.infix_refl _) (l.within hl) rfl

/-- What is wrong with a token points to its first line. -/
theorem Token.Placed.pointsInto {t : Token} (h : t.Placed source) (p : Problem) :
    (t.problem p).PointsInto source := by
  obtain ⟨l, hl, hstarts⟩ := h.starts
  rw [Token.problem, hstarts.no]
  exact located_pointsInto p hl hstarts.text h.within hstarts.start

section
variable {tokens : List Token} {found : List Diagnostic}

theorem AboutTokens.pointsInto (h : AboutTokens tokens found)
    (htokens : tokenize source = .ok tokens) : ∀ d ∈ found, d.PointsInto source := by
  intro d hd
  obtain ⟨t, ht, p, rfl⟩ := h d hd
  exact (placed_of_tokenize htokens t ht).pointsInto p

/-- A flaw points to the token on its line. Without lines it stands alone on line one. -/
theorem flawDiagnostic_pointsInto (htokens : tokenize source = .ok tokens) {flaw : Problem × Nat}
    (h : flaw.2 = 1 ∨ ∃ t ∈ tokens, t.lineNo = flaw.2) :
    (Document.flawDiagnostic tokens flaw).PointsInto source := by
  unfold Document.flawDiagnostic
  split
  case h_1 t hfind =>
    exact (placed_of_tokenize htokens t (List.mem_of_find?_eq_some hfind)).pointsInto _
  case h_2 hfind =>
    have hnone : ∀ t ∈ tokens, t.lineNo ≠ flaw.2 := by simpa using List.find?_eq_none.1 hfind
    rcases h with hone | ⟨t, ht, hline⟩
    · refine .empty ?_ (congrArg some hone) rfl rfl
      by_contra hlines
      obtain ⟨t, ht, hline⟩ := exists_first_of_tokenize htokens hlines
      exact hnone t ht (hline.trans hone.symm)
    · exact absurd hline (hnone t ht)

end

/-! ## Whole sources -/

theorem document_pointsInto {tokens : List Token} (htokens : tokenize source = .ok tokens)
    (fileName : Text) (files : FileSource) :
    ∀ d ∈ reported (Document.ofTokens fileName files tokens), d.PointsInto source := by
  have hfound := (Builder.traces_foldl files fileName tokens).found.pointsInto htokens
  simp only [Document.ofTokens, reported_settle]
  split
  case isTrue => exact hfound
  case isFalse =>
    refine List.forall_mem_append.2 ⟨hfound, List.forall_mem_map.2 fun flaw hflaw => ?_⟩
    exact flawDiagnostic_pointsInto htokens (Document.line_of_mem_flaws hflaw)

theorem concepts_pointsInto {tokens : List Token} (htokens : tokenize source = .ok tokens)
    (fileName : Text) (files : FileSource) :
    ∀ d ∈ reported (Concept.ofTokens fileName files tokens), d.PointsInto source := by
  simp only [Concept.ofTokens, reported_settle]
  exact (ConceptBuilder.aboutTokens_run files fileName tokens).pointsInto htokens

theorem pointsInto_of_tokenize {rejection : Rejection} (h : tokenize source = .error rejection) :
    ∀ d ∈ rejection.diagnostics, d.PointsInto source := fun _ hd =>
  pointsInto_of_lexer (lexerDiagnostics_of_tokenize h ▸ hd)

theorem reported_parse_document (source fileName : Text) (dictionary : Dictionary)
    (files : FileSource) :
    ∀ d ∈ reported (Document.parse source fileName dictionary files), d.PointsInto source := by
  cases htok : tokenize source with
  | error rejection =>
    rw [Document.parse, htok]
    exact pointsInto_of_tokenize htok
  | ok tokens =>
    have hparsed : reported (Document.parse source fileName dictionary files) =
        reported (Document.ofTokens fileName files tokens) := by
      rw [Document.parse, htok]
      show reported (Document.ofTokens fileName files tokens >>= _) = _
      cases Document.ofTokens fileName files tokens <;> rfl
    rw [hparsed]
    exact document_pointsInto htok fileName files

theorem reported_parse_concepts (source fileName : Text) (files : FileSource) :
    ∀ d ∈ reported (Concept.parse source fileName files), d.PointsInto source := by
  cases htok : tokenize source with
  | error rejection =>
    rw [Concept.parse, htok]
    exact pointsInto_of_tokenize htok
  | ok tokens =>
    have hparsed : Concept.parse source fileName files =
        Concept.ofTokens fileName files tokens := by
      rw [Concept.parse, htok]
      rfl
    rw [hparsed]
    exact concepts_pointsInto htok fileName files

/-- **Diagnostics point into the source**, those of a rejection as well as warnings, whichever part
found them. -/
theorem pointing (source : Text) :
    (∀ rejection, tokenize source = .error rejection →
      ∀ d ∈ rejection.diagnostics, d.PointsInto source) ∧
    (∀ fileName dictionary files,
      ∀ d ∈ reported (Document.parse source fileName dictionary files), d.PointsInto source) ∧
    ∀ fileName files,
      ∀ d ∈ reported (Concept.parse source fileName files), d.PointsInto source :=
  ⟨fun _ h => pointsInto_of_tokenize h,
    fun fileName dictionary files => reported_parse_document source fileName dictionary files,
    fun fileName files => reported_parse_concepts source fileName files⟩

end

/-- A document, or two concepts, with a step that names no parameter and a table without a step. -/
def partySource : Text := "Fête\n===\n* boire <thé>\n## Soirée\n|a|\n* danser".toList

/-- A step with a literal that does not end. -/
def openQuote : Text := "Fête\n* \"thé".toList

/-- The second diagnostic about the document is a warning. Nothing but line one is left to report an
empty source on. -/
theorem pointing_party :
    (∃ rejection, tokenize openQuote = .error rejection ∧
      rejection.diagnostics.map (·.lineNo) = [some 2] ∧
      ∀ d ∈ rejection.diagnostics, d.PointsInto openQuote) ∧
    (reported (Document.parse partySource [] .empty (.ofEntries []))).map
        (fun d => (d.lineNo, d.labels.map (·.span))) =
      [(some 3, [⟨10, 24⟩]), (some 5, [⟨36, 39⟩])] ∧
    (∀ d ∈ reported (Document.parse partySource [] .empty (.ofEntries [])),
      d.PointsInto partySource) ∧
    (reported (Concept.parse partySource [] (.ofEntries []))).map (·.lineNo) = [some 3, some 5] ∧
    (∀ d ∈ reported (Concept.parse partySource [] (.ofEntries [])), d.PointsInto partySource) ∧
    (reported (Document.parse [] [] .empty (.ofEntries []))).map
        (fun d => (d.lineNo, d.labels)) = [(some 1, [])] ∧
    ∀ d ∈ reported (Document.parse [] [] .empty (.ofEntries [])), d.PointsInto [] := by
  have hopen : (tokenize openQuote).isOk = false ∧
      (lexerDiagnostics openQuote).map (·.lineNo) = [some 2] := by decide +kernel
  have hquote : ∃ rejection, tokenize openQuote = .error rejection ∧
      rejection.diagnostics.map (·.lineNo) = [some 2] ∧
      ∀ d ∈ rejection.diagnostics, d.PointsInto openQuote := by
    cases htok : tokenize openQuote with
    | ok tokens => rw [htok] at hopen; cases hopen.1
    | error rejection =>
      refine ⟨rejection, rfl, ?_, (pointing openQuote).1 rejection htok⟩
      rw [lexerDiagnostics_of_tokenize htok]
      exact hopen.2
  exact ⟨hquote, by decide +kernel, (pointing partySource).2.1 _ _ _, by decide +kernel,
    (pointing partySource).2.2 _ _, by decide +kernel, (pointing []).2.1 _ _ _⟩

end ScenarioBook
