import ScenarioBook.Token.Lexer

/-!
# What a line can do to the lexer

`consume_takes` says everything that one line can do: it reports an error, or it does what `Takes`
lists. There it becomes a token of its own (`Reads` gives the token and the mode it leaves), a step
takes the block below it, a line of `=` or `-` turns the prose above into a heading, or the line
goes on with the tags above. Hence what these four keep holds after all lines of an accepted source
(`tokenize_induction`), and a property of tokens that they keep holds of all its tokens
(`forall_mem_of_tokenize`).
-/

set_option autoImplicit false

namespace ScenarioBook

/-- A line of this shape goes on with the tags above if they end with a comma. -/
def Shape.yields : Shape → Bool
  | .tableLine | .dataTable _ | .tearDown | .prose => true
  | _ => false

namespace Lexer

/-- An error was reported. -/
def HasError (lx : Lexer) : Prop := lx.diagnostics.any (·.isError)

/-- The token that a line becomes in this mode, and the mode it leaves. For a step the block below
it is not looked at. -/
inductive Reads (l : Line) (mode : Mode) : Token → Mode → Prop
  | heading {kind : HeadingKind} {title : Text} (hs : l.shape = .heading kind title)
      (ht : kind = .scenario → title ≠ []) :
      Reads l mode ⟨l.no, l.span, l.text, .heading kind title⟩ .fresh
  | blank (hs : l.shape = .blank) : Reads l mode ⟨l.no, l.span, l.text, .comment blankLine⟩ .comment
  | prose (hs : l.shape = .prose) (hm : mode ≠ .tags) :
      Reads l mode ⟨l.no, l.span, l.text, .comment l.text.trimEnd⟩ .comment
  | underline {kind : HeadingKind} (hs : l.shape = .underline kind) :
      Reads l mode ⟨l.no, l.span, l.text, .comment l.text.trimEnd⟩ .comment
  | step {text : Text} {scanned : StepText.Scanned} {block : Option Text}
      (hs : l.shape = .step text) (hscan : StepText.scan text = .ok scanned) :
      Reads l mode ⟨l.no, l.span, text, .step scanned.value scanned.args block⟩ .fresh
  | tags {text : Text} (hs : l.shape = .tags text) :
      Reads l mode ⟨l.no, l.span, l.text, .tags text.trim (splitTags text)⟩ (modeAfterTags text)
  | tableHeader (hs : l.shape = .tableLine) (hm : mode ≠ .tags) (ht : mode ≠ .table)
      (hf : Row.headerFault? (Row.splitCells l.text.trim) = none) :
      Reads l mode
        ⟨l.no, l.span, l.text, .tableHeader l.text.trim (Row.splitCells l.text.trim)⟩ .table
  | tableRow (hs : l.shape = .tableLine) (ht : mode = .table) :
      Reads l mode ⟨l.no, l.span, l.text, .tableRow l.text.trim (Row.splitCells l.text.trim)⟩ .table
  | dataTable {path : Text} (hs : l.shape = .dataTable path) (hm : mode ≠ .tags)
      (hp : path ≠ []) : Reads l mode ⟨l.no, l.span, l.text, .dataTable path⟩ mode
  | tearDown (hs : l.shape = .tearDown) (hm : mode ≠ .tags) (hlen : 3 ≤ l.text.trim.length) :
      Reads l mode ⟨l.no, l.span, l.text, .tearDown l.text.trim⟩ .fresh

/-- What one line does if it reports no error: the lexer before it and the lines behind it, the
lexer after it and the lines that are left. -/
inductive Takes (lx : Lexer) (l : Line) : List Line → Lexer → List Line → Prop
  | alone {rest : List Line} {t : Token} {mode : Mode} (hr : Reads l lx.mode t mode)
      (hb : t.block? = none) :
      Takes lx l rest { lx with tokens := lx.tokens ++ [t], mode := mode } rest
  | block {text : Text} {scanned : StepText.Scanned} {opening closing : Line}
      {inner left : List Line} (hs : l.shape = .step text)
      (hscan : StepText.scan text = .ok scanned) (ho : opening.isFence)
      (hi : ∀ m ∈ inner, m.isFence = false) (hc : closing.isFence) :
      Takes lx l (opening :: (inner ++ closing :: left))
        (lx.pushStep l text scanned (some (['\n'].intercalate (inner.map (·.text))))) left
  | underline {rest : List Line} {kind : HeadingKind} {t : Token}
      (hs : l.shape = .underline kind) (hm : lx.mode = .comment)
      (hlast : lx.tokens.getLast? = some t) (hprose : t.isProse) :
      Takes lx l rest
        { lx with tokens := lx.tokens.dropLast ++ [underlined kind l t], mode := .fresh } rest
  | continue {rest : List Line} (hs : l.shape.yields) (hm : lx.mode = .tags) :
      Takes lx l rest (lx.continueTags l l.text.trim) rest

/-- A line either reports an error or does what `Takes` allows. -/
def Outcome (lx : Lexer) (l : Line) (rest : List Line) (after : Lexer × List Line) : Prop :=
  after.1.HasError ∨ Takes lx l rest after.1 after.2

/-! ## One line -/

section
variable {lx lx' : Lexer} {l : Line} {rest rest' : List Line}

theorem hasError_report (lx : Lexer) (l : Line) {p : Problem} (h : p.severity = .error) :
    (lx.report l p).HasError := by
  simp [HasError, report, Problem.located, Problem.diagnostic, Diagnostic.isError,
    Diagnostic.onLine, Diagnostic.withLabel, h]

theorem outcome_fail (l' : Line) {p : Problem} (h : p.severity = .error) :
    Outcome lx l rest (lx.fail l' p, rest') := .inl (hasError_report lx l' h)

theorem outcome_push {content : Token.Content} {mode : Mode}
    (h : Reads l lx.mode ⟨l.no, l.span, l.text, content⟩ mode)
    (hb : ∀ value args block, content ≠ .step value args block) :
    Outcome lx l rest (lx.push l content mode, rest) := by
  refine .inr (.alone h ?_)
  unfold Token.block?
  split
  case h_1 value args block heq => exact absurd heq (hb value args block)
  case h_2 => rfl

theorem outcome_heading {kind : HeadingKind} {title : Text} (hs : l.shape = .heading kind title) :
    Outcome lx l rest (lx.heading l kind title, rest) := by
  unfold heading
  split
  case isTrue => exact outcome_fail l rfl
  case isFalse hne =>
    exact outcome_push (.heading hs fun hk ht => hne ⟨hk, by simp [ht]⟩) fun _ _ _ h => by cases h

theorem outcome_underline {kind : HeadingKind} (hs : l.shape = .underline kind) :
    Outcome lx l rest (lx.underline l kind, rest) := by
  have hcomment : Outcome lx l rest (lx.comment l l.text.trimEnd, rest) :=
    outcome_push (.underline hs) fun _ _ _ h => by cases h
  unfold underline
  split
  case h_1 t hlast =>
    split
    case isTrue hp => exact .inr (.underline hs hp.1 hlast hp.2)
    case isFalse => exact hcomment
  case h_2 => exact hcomment

theorem outcome_tableLine (hs : l.shape = .tableLine) (hm : lx.mode ≠ .tags) :
    Outcome lx l rest (lx.tableLine l l.text.trim, rest) := by
  simp only [tableLine]
  split
  case isTrue ht => exact outcome_push (.tableRow hs ht) fun _ _ _ h => by cases h
  case isFalse ht =>
    cases hf : Row.headerFault? (Row.splitCells l.text.trim) with
    | some fault => exact .inl (hasError_report lx l (p := .header fault) rfl)
    | none => exact outcome_push (.tableHeader hs hm ht hf) fun _ _ _ h => by cases h

theorem outcome_dataTable {path : Text} (hs : l.shape = .dataTable path) (hm : lx.mode ≠ .tags) :
    Outcome lx l rest (lx.dataTable l path, rest) := by
  unfold dataTable
  split
  case isTrue => exact .inl (hasError_report lx l rfl)
  case isFalse hp =>
    exact outcome_push (.dataTable hs hm (by simpa using hp)) fun _ _ _ h => by cases h

theorem outcome_tearDown (hs : l.shape = .tearDown) (hm : lx.mode ≠ .tags) :
    Outcome lx l rest (lx.tearDown l l.text.trim, rest) := by
  unfold tearDown
  split
  case isTrue => exact outcome_fail l rfl
  case isFalse hlen =>
    exact outcome_push (.tearDown hs hm (Nat.le_of_not_lt hlen)) fun _ _ _ h => by cases h

/-- A block is what stands before the next fence. -/
theorem takeBlock_eq_some {ls left : List Line} {block : List Text}
    (h : Line.takeBlock ls = some (block, left)) :
    ∃ (inner : List Line) (closing : Line), ls = inner ++ closing :: left ∧
      (∀ m ∈ inner, m.isFence = false) ∧ closing.isFence ∧ block = inner.map (·.text) := by
  fun_induction Line.takeBlock ls generalizing block left with
  | case1 => cases h
  | case2 l ls hl =>
    cases h
    exact ⟨[], l, rfl, fun _ hm => absurd hm List.not_mem_nil, hl, rfl⟩
  | case3 l ls hl ih =>
    simp only [Option.map_eq_some_iff, Prod.exists, Prod.mk.injEq] at h
    obtain ⟨b, r, hb, rfl, rfl⟩ := h
    obtain ⟨inner, closing, rfl, hfence, hc, rfl⟩ := ih hb
    exact ⟨l :: inner, closing, rfl, List.forall_mem_cons.2 ⟨by simpa using hl, hfence⟩, hc, rfl⟩

theorem outcome_step {text : Text} (hs : l.shape = .step text) :
    Outcome lx l rest (lx.step l text rest) := by
  have halone : ∀ scanned, StepText.scan text = .ok scanned →
      Outcome lx l rest (lx.pushStep l text scanned none, rest) :=
    fun scanned hscan => .inr (.alone (.step hs hscan) rfl)
  unfold step
  split
  case h_1 => exact outcome_fail l rfl
  case h_2 scanned hscan =>
    split
    case h_1 => exact halone scanned hscan
    case h_2 next after =>
      split
      case isTrue ho =>
        split
        case h_1 block left hb =>
          obtain ⟨inner, closing, rfl, hi, hc, rfl⟩ := takeBlock_eq_some hb
          exact .inr (.block hs hscan ho hi hc)
        case h_2 => exact outcome_fail next rfl
      case isFalse => exact halone scanned hscan

/-- **What one line can do.** -/
theorem consume_takes (lx : Lexer) (l : Line) (rest : List Line) :
    Outcome lx l rest (lx.consume l rest) := by
  unfold consume
  split
  case h_1 text hs => exact outcome_step hs
  case h_2 hne =>
    -- four of the shapes give way to the tags above
    have hor : ∀ {lx' : Lexer}, l.shape.yields →
        (lx.mode ≠ .tags → Outcome lx l rest (lx', rest)) →
        Outcome lx l rest
          (if lx.mode = .tags then lx.continueTags l l.text.trim else lx', rest) := by
      intro lx' hs h
      split
      case isTrue hm => exact .inr (.continue hs hm)
      case isFalse hm => exact h hm
    cases hs : l.shape with
    | blank => exact outcome_push (.blank hs) fun _ _ _ h => by cases h
    | heading kind title => exact outcome_heading hs
    | underline kind => exact outcome_underline hs
    | step text => exact absurd hs (hne text)
    | tags text => exact outcome_push (.tags hs) fun _ _ _ h => by cases h
    | tableLine => exact hor (by rw [hs]; rfl) (outcome_tableLine hs)
    | dataTable path => exact hor (by rw [hs]; rfl) (outcome_dataTable hs)
    | tearDown => exact hor (by rw [hs]; rfl) (outcome_tearDown hs)
    | prose =>
      exact hor (by rw [hs]; rfl) fun hm => outcome_push (.prose hs hm) fun _ _ _ h => by cases h

theorem Takes.diagnostics (h : Takes lx l rest lx' rest') : lx'.diagnostics = lx.diagnostics := by
  cases h <;> rfl

theorem Takes.suffix (h : Takes lx l rest lx' rest') : rest' <:+ rest := by
  cases h with
  | @block _ _ opening closing inner left =>
    exact ⟨opening :: (inner ++ [closing]), by simp⟩
  | alone | underline | «continue» => exact List.suffix_refl _

/-- The lines that are left are the last ones. -/
theorem consume_suffix (lx : Lexer) (l : Line) (rest : List Line) :
    (lx.consume l rest).2 <:+ rest := by
  unfold consume
  split
  case h_1 text _ =>
    unfold step
    cases StepText.scan text with
    | error => exact List.suffix_refl _
    | ok scanned =>
      cases rest with
      | nil => exact List.suffix_refl _
      | cons next after =>
        simp only
        split
        · cases h : Line.takeBlock after with
          | none => exact List.nil_suffix
          | some found =>
            obtain ⟨inner, closing, rfl, -, -, -⟩ := takeBlock_eq_some h
            exact ⟨next :: (inner ++ [closing]), by simp⟩
        · exact List.suffix_refl _
  case h_2 => exact List.suffix_refl _

end

/-! ## All lines -/

/-- What every line keeps, of the lexer and of the lines that are left, holds after all lines. -/
theorem run_induction {motive : Lexer → List Line → Prop}
    (hstep : ∀ lx l rest, motive lx (l :: rest) →
      motive (lx.consume l rest).1 (lx.consume l rest).2)
    {lx : Lexer} {ls : List Line} (h : motive lx ls) : motive (lx.run ls) [] := by
  induction hn : ls.length using Nat.strongRecOn generalizing lx ls with
  | ind n ih =>
    cases ls with
    | nil => rwa [run]
    | cons l rest =>
      rw [run]
      refine ih _ ?_ (hstep lx l rest h) rfl
      rw [← hn]
      exact Nat.lt_succ_of_le (length_consume_le lx l rest)

/-- **What a line without an error keeps holds after all lines of an accepted source.** -/
theorem tokenize_induction {motive : Lexer → List Line → Prop} {source : Text}
    {tokens : List Token} (h : tokenize source = .ok tokens)
    (hstart : motive start (Line.ofSource source))
    (hstep : ∀ lx l rest lx' rest', Takes lx l rest lx' rest' → motive lx (l :: rest) →
      motive lx' rest') :
    ∃ lx, lx.tokens = tokens ∧ motive lx [] := by
  have key : let lx := start.run (Line.ofSource source)
      lx.HasError ∨ motive lx [] := by
    refine run_induction (motive := fun lx rest => lx.HasError ∨ motive lx rest) ?_ (.inr hstart)
    intro lx l rest hlx
    rcases consume_takes lx l rest with herr | htakes
    · exact .inl herr
    · rcases hlx with herr | hlx
      · exact .inl (by rw [HasError, htakes.diagnostics]; exact herr)
      · exact .inr (hstep lx l rest _ _ htakes hlx)
  simp only [tokenize] at h
  split at h
  case isTrue => cases h
  case isFalse hclean =>
    cases h
    exact ⟨_, rfl, key.resolve_left hclean⟩

/-- **A property of tokens that one line keeps holds of all tokens of an accepted source.** -/
theorem forall_mem_of_tokenize {P : Token → Prop} {source : Text} {tokens : List Token}
    (h : tokenize source = .ok tokens)
    (hreads : ∀ l mode t mode', l ∈ Line.ofSource source → Reads l mode t mode' → P t)
    (hunderline : ∀ l kind t, l ∈ Line.ofSource source → t.isProse → P t →
      P (underlined kind l t))
    (hcontinue : ∀ l t, l ∈ Line.ofSource source → P t → P (continued l l.text.trim t)) :
    ∀ t ∈ tokens, P t := by
  obtain ⟨lx, rfl, -, hall⟩ := tokenize_induction (motive := fun lx rest =>
    (∀ l ∈ rest, l ∈ Line.ofSource source) ∧ ∀ t ∈ lx.tokens, P t) h
    ⟨fun _ hl => hl, fun _ ht => by cases ht⟩ fun lx l rest lx' rest' htakes ⟨hlines, hall⟩ => by
      have hl := hlines l List.mem_cons_self
      refine ⟨fun m hm => hlines m (List.mem_cons_of_mem _ (htakes.suffix.subset hm)), ?_⟩
      have hinit : ∀ t ∈ lx.tokens.dropLast, P t := fun t ht => hall t (List.dropLast_subset _ ht)
      cases htakes with
      | alone hr => exact List.forall_mem_append.2 ⟨hall, List.forall_mem_singleton.2
          (hreads _ _ _ _ hl hr)⟩
      | block hs hscan => exact List.forall_mem_append.2 ⟨hall, List.forall_mem_singleton.2
          (hreads _ lx.mode _ _ hl (.step hs hscan))⟩
      | underline hs hm hlast hprose =>
        refine List.forall_mem_append.2 ⟨hinit, List.forall_mem_singleton.2 ?_⟩
        exact hunderline _ _ _ hl hprose (hall _ (List.mem_of_getLast? hlast))
      | «continue» hs hm =>
        refine List.forall_mem_append.2 ⟨hinit, fun t ht => ?_⟩
        obtain ⟨last, hlast, rfl⟩ := Option.map_eq_some_iff.1 (Option.mem_toList.1 ht)
        exact hcontinue _ _ hl (hall _ (List.mem_of_getLast? hlast))
  exact hall

end Lexer

end ScenarioBook
