import Mathlib.Data.List.Induction
import ScenarioBook.Proofs.Document.Warned
import ScenarioBook.Proofs.Token.Kinds

/-!
# What a token can do to the builder

`Builder.Accepts` lists everything that one token does when it reports no error, with the place and
the documents it does it in: it opens a part of the document, becomes an item, goes to the table of
an earlier line, or is kept as a comment; and in two cases it leaves nothing, a step before the
heading and the line of dashes below a header. `Builder.accepts_accept` says that the list is
complete. A property that each of these keeps holds of the document of accepted tokens
(`Document.inv_of_ofTokens`).
-/

set_option autoImplicit false

namespace ScenarioBook

namespace Token

/-- The token can be kept as a comment. -/
def Keepable (t : Token) : Prop :=
  match t.content with
  | .comment _ | .tableHeader _ _ | .tableRow _ _ | .tags _ _ | .dataTable _ => True
  | .heading _ _ | .step _ _ _ | .tearDown _ => False

/-- One of the diagnostics is about the line of the token. -/
def NotedIn (found : List Diagnostic) (t : Token) : Prop := ∃ x ∈ found, x.lineNo = some t.lineNo

theorem NotedIn.append_left {found : List Diagnostic} {t : Token} (h : t.NotedIn found)
    (more : List Diagnostic) : t.NotedIn (more ++ found) := by
  obtain ⟨x, hx, hline⟩ := h
  exact ⟨x, List.mem_append_right _ hx, hline⟩

theorem NotedIn.append_right {found : List Diagnostic} {t : Token} (h : t.NotedIn found)
    (more : List Diagnostic) : t.NotedIn (found ++ more) := by
  obtain ⟨x, hx, hline⟩ := h
  exact ⟨x, List.mem_append_left _ hx, hline⟩

end Token

namespace Builder

/-- What a token does without an error, and what comes out. -/
inductive Accepts (files : FileSource) (b : Builder) (t : Token) : Builder → Prop
  | heading {title : Text} (hc : t.content = .heading .spec title)
      (hnone : b.document.heading = none) :
      Accepts files b t
        ((b.edit fun d => { d with heading := some ⟨title, t.lineNo, .spec⟩ }).enter .context)
  | scenario {title : Text} (hc : t.content = .heading .scenario title)
      (hsome : b.document.heading ≠ none) (hnew : b.namesake? title = none) :
      Accepts files b t
        ((b.edit (·.addItem (.scenario ⟨title, t.lineNo, .scenario⟩ []))).enter .scenario)
  /-- a step before the heading -/
  | early {value : Text} {args : List RawArg} {block : Option Text}
      (hc : t.content = .step value args block) (hp : b.place.current = .preamble) :
      Accepts files b t b
  | step {value : Text} {args : List RawArg} {block : Option Text}
      (hc : t.content = .step value args block) (hp : b.place.current ≠ .preamble) :
      Accepts files b t
        { b.add (.step (.ofStep (t.readStep b.frame files value args block).1)) with
          place := ⟨b.place.current, b.place.current != .tearDown, false⟩ }
  /-- a comment, or a line that has no place here; only a `table:` line leaves the step open -/
  | kept {found : List Diagnostic} {place : Place} (hk : t.Keepable)
      (hplace : place = b.place ∨ place = ⟨b.place.current, false, false⟩)
      (hnoted : t.isTags → t.NotedIn found)
      (hstays : place.stepOpen = true → t.isReference = true) :
      Accepts files b t { (b.report found).keep t with place := place }
  /-- the first line of a table below a step -/
  | attach {row : Text} {cells : List Text} (hc : t.content = .tableHeader row cells)
      (hp : b.place.current ≠ .preamble)
      (hopen : b.place.stepOpen = true ∨
        b.place.current = .tearDown ∧ b.document.latestTearDownStep?.isSome) :
      Accepts files b t
        { b.mapOpenStep (·.addInlineTable ((Table.empty t.lineNo).addHeaders cells)) with
          place := { b.place with tableOpen := true } }
  /-- the first line of the data table -/
  | openData {row : Text} {cells : List Text} (hc : t.content = .tableHeader row cells)
      (hp : b.place.current = .context) (hstep : b.place.stepOpen = false)
      (hnone : b.document.dataTable? = none) :
      Accepts files b t
        { b.edit (·.addItem (.dataTable ⟨(Table.empty t.lineNo).addHeaders cells, none⟩)) with
          place := { b.place with tableOpen := true } }
  /-- the line of dashes below a header -/
  | separator {row : Text} {cells : List Text} (hc : t.content = .tableRow row cells)
      (hopen : b.place.tableOpen = true) (hsep : Row.isSeparator cells = true) :
      Accepts files b t b
  /-- a row of a table below a step -/
  | row {row : Text} {cells : List Text} (hc : t.content = .tableRow row cells)
      (hopen : b.place.tableOpen = true) (hsep : Row.isSeparator cells = false)
      (hstep : b.place.stepOpen = true ∨ b.place.current = .tearDown) :
      Accepts files b t (b.mapOpenStep (·.addInlineRow (t.readRow b.frame files cells).1))
  /-- a row of the data table -/
  | dataRow {row : Text} {cells : List Text} (hc : t.content = .tableRow row cells)
      (hopen : b.place.tableOpen = true) (hsep : Row.isSeparator cells = false)
      (hstep : b.place.stepOpen = false) (hp : b.place.current ≠ .tearDown) :
      Accepts files b t (b.edit (·.mapDataTable (·.addRow (t.readDataRow files cells).1)))
  | tags {text : Text} {values : List Text} (hc : t.content = .tags text values)
      (hscenario : b.place.current = .scenario →
        b.document.latestScenario?.bind Scenario.tags? = none)
      (hnone : b.place.current ≠ .scenario → b.document.tags? = none) :
      Accepts files b t (b.add (.tags ⟨values, t.lineNo⟩)).close
  /-- a data table that is read from a file -/
  | reference {path : Text} {table : Table} (hc : t.content = .dataTable path)
      (href : Reference.dataTable files path = .ok table)
      (hp : b.place.current = .context ∨ b.place.current = .tearDown)
      (hnone : b.document.dataTable? = none) :
      Accepts files b t
        (b.edit (·.addItem (.dataTable ⟨{ table with lineNo := t.lineNo }, some path⟩)))
  | tearDown {marker : Text} (hc : t.content = .tearDown marker) :
      Accepts files b t
        ((b.edit (·.addItem (.tearDown ⟨marker, t.lineNo⟩))).enter
          (if b.place.current = .preamble then .preamble else .tearDown))

section
variable {files : FileSource} {b : Builder} {t : Token}

theorem report_nil : b.report [] = b := by
  rw [report, List.append_nil]

theorem report_of_allErrors {found : List Diagnostic} (h : AllErrors found)
    (hc : Clean (b.report found).diagnostics) : b.report found = b := by
  have hnil : found = [] := by
    rw [List.eq_nil_iff_forall_not_mem]
    intro x hx
    have := (clean_append.1 hc).2 x hx
    rw [h x hx] at this
    cases this
  rw [hnil, report_nil]

theorem add_of_scenario {i : Item} (hs : b.place.current = .scenario) :
    b.add i = b.edit (·.addToScenario i) := by
  simp only [add, hs, if_true]

theorem add_of_ne_scenario {i : Item} (hs : b.place.current ≠ .scenario) :
    b.add i = b.edit (·.addItem i) := by
  simp only [add, hs, if_false]

/-! ## One lemma for each kind of token -/

theorem accepts_specHeading {title : Text} (hc : t.content = .heading .spec title)
    (h : Clean (b.specHeading t title).diagnostics) :
    b.Accepts files t (b.specHeading t title) := by
  unfold specHeading at h ⊢
  split at h
  case isTrue => exact absurd (clean_append.1 h).2 (not_clean_problem t rfl)
  case isFalse hnone =>
    rw [if_neg hnone]
    exact .heading hc (by simpa using hnone)

theorem accepts_scenarioHeading {title : Text} (hc : t.content = .heading .scenario title)
    (h : Clean (b.scenarioHeading t title).diagnostics) :
    b.Accepts files t (b.scenarioHeading t title) := by
  unfold scenarioHeading at h ⊢
  split at h
  case isTrue => exact absurd (clean_append.1 h).2 (not_clean_problem t rfl)
  case isFalse hsome =>
    rw [if_neg hsome]
    split at h
    case h_1 => exact absurd (clean_append.1 h).2 (not_clean_problem t rfl)
    case h_2 hnew =>
      exact .scenario hc (by simpa using hsome) hnew

theorem accepts_step {value : Text} {args : List RawArg} {block : Option Text}
    (hc : t.content = .step value args block)
    (h : Clean (b.step files t value args block).diagnostics) :
    b.Accepts files t (b.step files t value args block) := by
  unfold step at h ⊢
  split at h
  case isTrue hp =>
    rw [if_pos hp]
    exact .early hc hp
  case isFalse hp =>
    have hsame := report_of_allErrors (t.allErrors_readStep b.frame files value args block) h
    rw [if_neg hp]
    simp only [hsame]
    exact .step hc hp

theorem accepts_keep (hk : t.Keepable) (ht : t.isTags = false) (found : List Diagnostic)
    (hstays : b.place.stepOpen = true → t.isReference = true) :
    b.Accepts files t ((b.report found).keep t) := by
  have h : b.Accepts files t { (b.report found).keep t with place := b.place } :=
    .kept hk (.inl rfl) (fun h => by rw [ht] at h; cases h) hstays
  exact h

theorem accepts_comment (hk : t.Keepable) (ht : t.isTags = false) :
    b.Accepts files t (b.comment t) := by
  have h : b.Accepts files t
      { (b.report []).keep t with place := ⟨b.place.current, false, false⟩ } :=
    .kept hk (.inr rfl) (fun h => by rw [ht] at h; cases h) fun h => by cases h
  rwa [report_nil] at h

theorem accepts_tableHeader {row : Text} {cells : List Text}
    (hc : t.content = .tableHeader row cells) : b.Accepts files t (b.tableHeader t cells) := by
  have hk : t.Keepable := by rw [Token.Keepable, hc]; trivial
  have ht : t.isTags = false := by rw [Token.isTags, hc]
  unfold tableHeader
  simp only
  split
  case h_1 => exact accepts_comment hk ht
  case h_2 hp =>
    split
    case isTrue hopen => exact .attach hc (by simp [hp]) (.inl hopen)
    case isFalse hclosed => exact accepts_keep hk ht _ fun h => absurd h hclosed
  case h_3 hp =>
    split
    case isTrue hopen => exact .attach hc (by simp [hp]) (.inr ⟨hp, hopen⟩)
    case isFalse => exact accepts_comment hk ht
  case h_4 hp =>
    split
    case isTrue hopen => exact .attach hc (by simp [hp]) (.inl hopen)
    case isFalse hopen =>
      split
      case isTrue hnone =>
        exact .openData hc hp (by simpa using hopen) (by simpa using hnone)
      case isFalse => exact accepts_keep hk ht _ fun h => absurd h hopen

theorem accepts_tableRow {row : Text} {cells : List Text} (hc : t.content = .tableRow row cells)
    (h : Clean (b.tableRow files t cells).diagnostics) :
    b.Accepts files t (b.tableRow files t cells) := by
  have hk : t.Keepable := by rw [Token.Keepable, hc]; trivial
  have ht : t.isTags = false := by rw [Token.isTags, hc]
  unfold tableRow at h ⊢
  split at h
  case isTrue hclosed =>
    rw [if_pos hclosed]
    exact accepts_comment hk ht
  case isFalse hopen =>
    rw [if_neg hopen]
    have hopen : b.place.tableOpen = true := by simpa using hopen
    split at h
    case isTrue hsep =>
      rw [if_pos hsep]
      exact .separator hc hopen hsep
    case isFalse hsep =>
      have hsep : Row.isSeparator cells = false := by simpa using hsep
      rw [if_neg (by simp [hsep])]
      split at h
      case isTrue hstep =>
        rw [if_pos hstep]
        have hsame := report_of_allErrors (t.allErrors_readRow b.frame files cells) h
        simp only [hsame]
        exact .row hc hopen hsep (by simpa using hstep)
      case isFalse hstep =>
        rw [if_neg hstep]
        have hsame := report_of_allErrors (t.allErrors_readDataRow files cells) h
        simp only [hsame]
        have hclosed : b.place.stepOpen = false ∧ b.place.current ≠ .tearDown := by
          simpa using hstep
        exact .dataRow hc hopen hsep hclosed.1 hclosed.2

theorem accepts_tags {text : Text} {values : List Text} (hc : t.content = .tags text values) :
    b.Accepts files t (b.tags t values) := by
  have hk : t.Keepable := by rw [Token.Keepable, hc]; trivial
  have hkept : ∀ p : Problem, b.Accepts files t (b.ignore t p).close := by
    intro p
    have hnoted : t.NotedIn [t.problem p] := ⟨_, List.mem_cons_self, rfl⟩
    exact .kept hk (.inr rfl) (fun _ => hnoted) fun h => by cases h
  unfold tags
  simp only
  split
  case isTrue hs =>
    split
    case isTrue => exact hkept _
    case isFalse hnone => exact .tags hc (fun _ => by simpa using hnone) fun hne => absurd hs hne
  case isFalse hs =>
    split
    case isTrue => exact hkept _
    case isFalse hnone => exact .tags hc (fun h => absurd h hs) fun _ => by simpa using hnone

theorem accepts_dataTable {path : Text} (hc : t.content = .dataTable path)
    (h : Clean (b.dataTable files t path).diagnostics) :
    b.Accepts files t (b.dataTable files t path) := by
  have hk : t.Keepable := by rw [Token.Keepable, hc]; trivial
  have ht : t.isTags = false := by rw [Token.isTags, hc]
  have href : t.isReference = true := by rw [Token.isReference, hc]
  unfold dataTable at h ⊢
  cases hread : Reference.dataTable files path with
  | error fault =>
    rw [hread] at h
    exact absurd (clean_append.1 h).2 (not_clean_problem t rfl)
  | ok table =>
    simp only
    split
    case isTrue => exact accepts_keep hk ht _ fun _ => href
    case isFalse hp =>
      split
      case isTrue => exact accepts_keep hk ht _ fun _ => href
      case isFalse hnone =>
        refine .reference hc hread ?_ (by simpa using hnone)
        cases hcur : b.place.current <;> simp [hcur] at hp ⊢

/-- **The list is complete**: what a token does without an error is listed. -/
theorem accepts_accept (h : Clean (b.accept files t).diagnostics) :
    b.Accepts files t (b.accept files t) := by
  unfold accept at h ⊢
  split
  case h_1 title hc => simp only [hc] at h; exact accepts_specHeading hc h
  case h_2 title hc => simp only [hc] at h; exact accepts_scenarioHeading hc h
  case h_3 value args block hc => simp only [hc] at h; exact accepts_step hc h
  case h_4 text hc =>
    exact accepts_comment (by rw [Token.Keepable, hc]; trivial) (by rw [Token.isTags, hc])
  case h_5 row cells hc => exact accepts_tableHeader hc
  case h_6 row cells hc => simp only [hc] at h; exact accepts_tableRow hc h
  case h_7 text values hc => exact accepts_tags hc
  case h_8 path hc => simp only [hc] at h; exact accepts_dataTable hc h
  case h_9 marker hc => exact .tearDown hc

/-- A token takes no diagnostic back. -/
theorem clean_of_accept (h : Clean (b.accept files t).diagnostics) : Clean b.diagnostics := by
  have hsteady : Step.Steady fun _ _ => True := ⟨fun _ _ => trivial, fun _ _ _ => trivial,
    fun _ _ _ => trivial⟩
  exact (keeps_accept hsteady (fun _ _ _ _ _ _ => trivial) h).1

theorem clean_of_foldl {tokens : List Token}
    (h : Clean (tokens.foldl (accept files) b).diagnostics) : Clean b.diagnostics := by
  induction tokens generalizing b with
  | nil => exact h
  | cons t tokens ih => exact clean_of_accept (ih h)

/-- **What every token keeps holds in the end**, of the tokens and of what they built. -/
theorem inv_of_clean {motive : List Token → Builder → Prop} {seen tokens : List Token}
    (hclean : Clean (tokens.foldl (accept files) b).diagnostics) (start : motive seen b)
    (step : ∀ {seen : List Token} {b : Builder} {t : Token}, t ∈ tokens → motive seen b →
      Clean (b.accept files t).diagnostics → motive (seen ++ [t]) (b.accept files t)) :
    motive (seen ++ tokens) (tokens.foldl (accept files) b) := by
  -- on the tokens from the last one: without errors after it there are none before it
  induction tokens using List.reverseRecOn with
  | nil => rwa [List.append_nil]
  | append_singleton tokens t ih =>
    rw [List.foldl_append, List.foldl_cons, List.foldl_nil] at hclean ⊢
    have hbefore := ih (clean_of_accept hclean) fun ht => step (List.mem_append_left _ ht)
    rw [← List.append_assoc]
    exact step (by simp) hbefore hclean

end

end Builder

namespace Document

variable {fileName : Text} {files : FileSource} {tokens : List Token} {parsed : Parsed Document}

/-- What every token keeps holds of the document of accepted tokens. -/
theorem inv_of_ofTokens {motive : List Token → Builder → Prop}
    (h : ofTokens fileName files tokens = .ok parsed) (start : motive [] (.start fileName))
    (step : ∀ {seen : List Token} {b b' : Builder} {t : Token}, t ∈ tokens → motive seen b →
      b.Accepts files t b' → motive (seen ++ [t]) b') :
    ∃ b : Builder, motive tokens b ∧ parsed = ⟨b.document, b.diagnostics⟩ := by
  obtain ⟨hclean, hparsed⟩ := ofTokens_eq_ok_run h
  exact ⟨_, Builder.inv_of_clean hclean start fun ht hb hc =>
    step ht hb (Builder.accepts_accept hc), hparsed⟩

end Document

end ScenarioBook
