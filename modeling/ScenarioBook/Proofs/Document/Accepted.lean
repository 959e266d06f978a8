import ScenarioBook.Dictionary
import ScenarioBook.Proofs.Document.Checked

/-!
# What accepted documents have

An accepted source gives the expansion of the document that its tokens build (`parse_eq_ok`). That
document has no flaws (`ofTokens_eq_ok`): it has items, rows below the headers of its data table,
steps in every scenario, and a heading, whose title is a part of one line (`heading_of_ofTokens`).
-/

set_option autoImplicit false

namespace ScenarioBook

/-! ## Titles -/

namespace Token

/-- Titles are trimmed, and titles and prose hold no newline. -/
def Titled (t : Token) : Prop :=
  match t.content with
  | .heading _ title => title.Tight ∧ '\n' ∉ title
  | .comment text => text = blankLine ∨ '\n' ∉ text
  | _ => True

theorem titled_of_tokenize {source : Text} {tokens : List Token}
    (h : tokenize source = .ok tokens) : ∀ t ∈ tokens, t.Titled := by
  refine Lexer.forall_mem_of_tokenize h ?_ ?_ ?_
  · intro l mode t mode' hmem hr
    have hl := (Line.standsIn_of_mem hmem).newline_not_mem
    have hprose : '\n' ∉ l.text.trimEnd := fun hin =>
      hl ((Text.trimEnd_isPrefix l.text).subset hin)
    cases hr with
    | heading hs =>
      obtain ⟨htight, hin⟩ := Shape.title_of_heading hs
      exact ⟨htight, fun hmem => hl (hin.subset hmem)⟩
    | blank => exact .inl rfl
    | prose | underline => exact .inr hprose
    | step | tags | tableHeader | tableRow | dataTable | tearDown => exact trivial
  · intro l kind t _ hp ht
    obtain ⟨no, span, lineText, content⟩ := t
    cases content with
    | comment text =>
      have hne : text ≠ blankLine := by simpa [isProse] using hp
      exact ⟨Text.tight_trim text,
        fun hin => ht.resolve_left hne ((Text.trim_isInfix text).subset hin)⟩
    | _ => simp [isProse] at hp
  · intro l t _ ht
    obtain ⟨no, span, lineText, content⟩ := t
    cases content <;> exact ht

end Token

/-! ## Flaws -/

namespace Document

/-- A document is flawless if it has items and a title, rows below the headers of its data table,
and steps in every scenario. -/
theorem flaws_eq_nil_iff {d : Document} :
    d.flaws = [] ↔ d.items ≠ [] ∧ (∃ h, d.heading = some h ∧ h.title.trim ≠ []) ∧
      (∀ data ∈ d.dataTable?, ¬ (data.table.isInitialized ∧ data.table.rowCount = 0)) ∧
      ∀ s ∈ d.scenarios, s.steps ≠ [] := by
  by_cases hi : d.items = []
  · simp [flaws, hi]
  cases hh : d.heading with
  | none => simp [flaws, hi, hh]
  | some h =>
    by_cases ht : h.title.trim = []
    · simp [flaws, hi, hh, ht]
    · simp [flaws, hi, hh, ht, List.filter_eq_nil_iff]

theorem severity_of_mem_flaws {d : Document} {flaw : Problem × Nat} (h : flaw ∈ d.flaws) :
    flaw.1.severity = .error := by
  unfold flaws at h
  split at h
  case isTrue => cases List.mem_singleton.1 h; rfl
  case isFalse =>
    split at h
    case h_1 => cases List.mem_singleton.1 h; rfl
    case h_2 =>
      split at h
      case isTrue => cases List.mem_singleton.1 h; rfl
      case isFalse =>
        rcases List.mem_append.1 h with h | h <;> obtain ⟨_, -, rfl⟩ := List.mem_map.1 h <;> rfl

section
variable {fileName : Text} {files : FileSource} {tokens : List Token} {parsed : Parsed Document}

theorem ofTokens_eq_ok (h : ofTokens fileName files tokens = .ok parsed) :
    parsed.document = (tokens.foldl (Builder.accept files) (.start fileName)).document ∧
      parsed.document.flaws = [] := by
  obtain ⟨hclean, rfl⟩ := settle_eq_ok h
  refine ⟨rfl, ?_⟩
  split at hclean
  case isTrue herr =>
    obtain ⟨found, hmem, hfound⟩ := List.any_eq_true.1 herr
    rw [hclean found hmem] at hfound
    cases hfound
  case isFalse =>
    have hflaws := (clean_append.1 hclean).2
    rw [List.eq_nil_iff_forall_not_mem]
    intro flaw hmem
    have := hflaws _ (List.mem_map_of_mem hmem)
    have herror : (flawDiagnostic tokens flaw).isError = true := by
      have hsev := severity_of_mem_flaws hmem
      unfold flawDiagnostic
      split <;> exact beq_iff_eq.2 hsev
    rw [herror] at this
    cases this

end

end Document

/-! ## The heading -/

namespace Builder

variable {files : FileSource} (b : Builder) (t : Token)

theorem heading_add (i : Item) : (b.add i).document.heading = b.document.heading := by
  simp only [add, edit]
  split <;> rfl

theorem heading_mapOpenStep (f : Step → Step) :
    (b.mapOpenStep f).document.heading = b.document.heading := by
  simp only [mapOpenStep, edit]
  split <;> rfl

theorem heading_keep : (b.keep t).document.heading = b.document.heading := b.heading_add _

theorem heading_scenarioHeading (title : Text) :
    (b.scenarioHeading t title).document.heading = b.document.heading := by
  unfold scenarioHeading
  split
  · rfl
  · split <;> rfl

theorem heading_step (value : Text) (args : List RawArg) (block : Option Text) :
    (b.step files t value args block).document.heading = b.document.heading := by
  unfold step
  split
  · rfl
  · exact heading_add (b.report _) _

theorem heading_tableHeader (cells : List Text) :
    (b.tableHeader t cells).document.heading = b.document.heading := by
  unfold tableHeader
  split
  case h_1 => exact b.heading_keep t
  case h_2 =>
    split
    · exact b.heading_mapOpenStep _
    · exact b.heading_keep t
  case h_3 =>
    split
    · exact b.heading_mapOpenStep _
    · exact b.heading_keep t
  case h_4 =>
    split
    · exact b.heading_mapOpenStep _
    · split
      · rfl
      · exact b.heading_keep t

theorem heading_tableRow (cells : List Text) :
    (b.tableRow files t cells).document.heading = b.document.heading := by
  unfold tableRow
  split
  · exact b.heading_keep t
  · split
    · rfl
    · split
      · exact heading_mapOpenStep (b.report _) _
      · rfl

theorem heading_tags (values : List Text) :
    (b.tags t values).document.heading = b.document.heading := by
  unfold tags
  simp only
  split
  · split
    · exact b.heading_keep t
    · exact b.heading_add _
  · split
    · exact b.heading_keep t
    · exact b.heading_add _

theorem heading_dataTable (path : Text) :
    (b.dataTable files t path).document.heading = b.document.heading := by
  unfold dataTable
  split
  · rfl
  · split
    · exact b.heading_keep t
    · split
      · exact b.heading_keep t
      · rfl

/-- A token sets the heading of the document, or leaves it as it is. -/
theorem heading_accept :
    (b.accept files t).document.heading = b.document.heading ∨
      ∃ title, t.content = .heading .spec title ∧
        (b.accept files t).document.heading = some ⟨title, t.lineNo, .spec⟩ := by
  obtain ⟨no, span, lineText, content⟩ := t
  cases content with
  | heading kind title =>
    cases kind with
    | spec =>
      simp only [accept, specHeading]
      split
      · exact .inl rfl
      · exact .inr ⟨title, rfl, rfl⟩
    | scenario => exact .inl (b.heading_scenarioHeading _ title)
  | step value args block => exact .inl (b.heading_step _ value args block)
  | comment => exact .inl (b.heading_keep _)
  | tableHeader _ cells => exact .inl (b.heading_tableHeader _ cells)
  | tableRow _ cells => exact .inl (b.heading_tableRow _ cells)
  | tags _ values => exact .inl (b.heading_tags _ values)
  | dataTable path => exact .inl (b.heading_dataTable _ path)
  | tearDown => exact .inl rfl

end Builder

namespace Document

section
variable {fileName : Text} {files : FileSource} {tokens : List Token} {parsed : Parsed Document}

/-- **The heading of an accepted document is one trimmed line.** -/
theorem heading_of_ofTokens (h : ofTokens fileName files tokens = .ok parsed)
    (ht : ∀ t ∈ tokens, t.Titled) :
    ∃ heading, parsed.document.heading = some heading ∧ heading.title.Tight ∧
      heading.title ≠ [] ∧ '\n' ∉ heading.title ∧ heading.kind = .spec := by
  obtain ⟨hdoc, hflaws⟩ := ofTokens_eq_ok h
  obtain ⟨-, ⟨heading, hheading, hne⟩, -⟩ := flaws_eq_nil_iff.1 hflaws
  have hfold : ∀ b : Builder, (∀ heading, b.document.heading = some heading →
      heading.title.Tight ∧ '\n' ∉ heading.title ∧ heading.kind = .spec) →
      ∀ heading, (tokens.foldl (Builder.accept files) b).document.heading = some heading →
        heading.title.Tight ∧ '\n' ∉ heading.title ∧ heading.kind = .spec := by
    clear h hdoc
    induction tokens with
    | nil => exact fun _ hb => hb
    | cons t tokens ih =>
      obtain ⟨ht, hts⟩ := List.forall_mem_cons.1 ht
      intro b hb
      refine ih hts _ fun heading hh => ?_
      rcases b.heading_accept t with hsame | ⟨title, hcontent, hset⟩
      · exact hb heading (hsame.symm.trans hh)
      · cases hset.symm.trans hh
        rw [Token.Titled, hcontent] at ht
        exact ⟨ht.1, ht.2, rfl⟩
  obtain ⟨htight, hn, hk⟩ :=
    hfold (.start fileName) (fun _ hb => by cases hb) heading (hdoc ▸ hheading)
  refine ⟨heading, hheading, htight, fun hnil => hne (by rw [hnil]; rfl), hn, hk⟩

end

section
variable {source fileName : Text} {dictionary : Dictionary} {files : FileSource}
  {parsed : Parsed Document}

/-- What is parsed is the expansion of what was read, with the same warnings. -/
theorem parse_eq_ok_expand (h : Document.parse source fileName dictionary files = .ok parsed) :
    ∃ tokens read, tokenize source = .ok tokens ∧ ofTokens fileName files tokens = .ok read ∧
      parsed = ⟨dictionary.expandDocument read.document, read.warnings⟩ := by
  unfold Document.parse at h
  cases htok : tokenize source with
  | error r => rw [htok] at h; cases h
  | ok tokens =>
    rw [htok] at h
    cases hread : ofTokens fileName files tokens with
    | error r =>
      simp only [bind, Except.bind, hread] at h
      cases h
    | ok read =>
      simp only [bind, Except.bind, hread] at h
      cases h
      exact ⟨tokens, read, rfl, hread, rfl⟩

/-- A parsed document is the expansion of the one that was read. -/
theorem parse_eq_ok (h : Document.parse source fileName dictionary files = .ok parsed) :
    ∃ tokens read, tokenize source = .ok tokens ∧ ofTokens fileName files tokens = .ok read ∧
      parsed.document = dictionary.expandDocument read.document := by
  obtain ⟨tokens, read, htok, hread, rfl⟩ := parse_eq_ok_expand h
  exact ⟨tokens, read, htok, hread, rfl⟩

end

end Document

end ScenarioBook
