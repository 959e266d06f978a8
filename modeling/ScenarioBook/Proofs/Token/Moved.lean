import ScenarioBook.Proofs.Token.Consume

/-!
# Reading the same lines further down

Lines that stand further down in a source, by some lines and bytes, are read as the same tokens and
reported as the same diagnostics, moved by as much. `Lexer.Behind` relates the lexer that reads the
lines as a source of their own to one that reads them behind other tokens. The modes of the two need
not agree: where the first is fresh, the other may still see the comment of a blank line. No step
tells these apart, because an underline looks for prose, and the last token is none. Each line keeps
the relation (`Behind.consume`), so all lines do (`Behind.run`).
-/

set_option autoImplicit false

namespace ScenarioBook

/-! ## Places further down -/

/-- How many lines and bytes stand in front. -/
structure Offset where
  lines : Nat
  bytes : Nat

def Span.moved (o : Offset) (s : Span) : Span := ⟨s.start + o.bytes, s.stop + o.bytes⟩

/-- The same line further down. -/
def Line.moved (o : Offset) (l : Line) : Line := ⟨l.no + o.lines, l.start + o.bytes, l.text⟩

/-- The same token further down. -/
def Token.moved (o : Offset) (t : Token) : Token :=
  { t with lineNo := t.lineNo + o.lines, span := t.span.moved o }

def Label.moved (o : Offset) (label : Label) : Label := { label with span := label.span.moved o }

/-- The same diagnostic about a line further down. -/
def Diagnostic.moved (o : Offset) (d : Diagnostic) : Diagnostic :=
  { d with lineNo := d.lineNo.map (· + o.lines), labels := d.labels.map (Label.moved o) }

def Rejection.moved (o : Offset) (r : Rejection) : Rejection :=
  ⟨r.diagnostics.map (Diagnostic.moved o)⟩

section
variable (o : Offset)

theorem Span.union_moved (s t : Span) : (s.moved o).union (t.moved o) = (s.union t).moved o := by
  simp only [union, moved, Span.mk.injEq]
  omega

theorem Line.span_moved (l : Line) : (l.moved o).span = l.span.moved o := by
  simp only [span, moved, Span.moved, Span.mk.injEq, true_and]
  omega

theorem Line.shape_moved (l : Line) : (l.moved o).shape = l.shape := rfl

theorem Line.isFence_moved (l : Line) : (l.moved o).isFence = l.isFence := rfl

theorem Line.takeBlock_moved (ls : List Line) :
    takeBlock (ls.map (moved o)) =
      (takeBlock ls).map fun (block, rest) => (block, rest.map (moved o)) := by
  induction ls with
  | nil => rfl
  | cons l ls ih =>
    rw [List.map_cons, takeBlock, takeBlock, isFence_moved]
    split
    case isTrue => rfl
    case isFalse => rw [ih, Option.map_map, Option.map_map]; rfl

theorem Token.isProse_moved (t : Token) : (t.moved o).isProse = t.isProse := rfl

theorem Problem.located_moved (p : Problem) (l : Line) :
    p.located (l.moved o).no (l.moved o).text (l.moved o).span =
      (p.located l.no l.text l.span).moved o := by
  rw [Line.span_moved]
  rfl

end

/-! ## The same lines behind other tokens -/

namespace Lexer

/-- The second lexer has read what the first one has, further down and behind the tokens `seen`. -/
structure Behind (seen : List Token) (o : Offset) (lx lx' : Lexer) : Prop where
  tokens : lx'.tokens = seen ++ lx.tokens.map (Token.moved o)
  diagnostics : lx'.diagnostics = lx.diagnostics.map (Diagnostic.moved o)
  mode : lx'.mode = lx.mode ∨
    lx.mode = .fresh ∧ lx'.mode = .comment ∧ ∀ t ∈ lx'.tokens.getLast?, t.isProse = false
  tagsOpen : lx.mode = .tags → lx.tokens ≠ []

section
variable {seen : List Token} {o : Offset} {lx lx' : Lexer} {l : Line}

/-- Only a fresh lexer and one behind a comment are confused. -/
theorem Behind.mode_iff (h : Behind seen o lx lx') {mode : Mode} (hf : mode ≠ .fresh)
    (hc : mode ≠ .comment) : lx'.mode = mode ↔ lx.mode = mode := by
  rcases h.mode with heq | ⟨hfresh, hcomment, -⟩
  · rw [heq]
  · rw [hfresh, hcomment]
    exact ⟨fun heq => absurd heq.symm hc, fun heq => absurd heq.symm hf⟩

/-! ### What a line does -/

theorem Behind.push (h : Behind seen o lx lx') (content : Token.Content) (mode : Mode) :
    Behind seen o (lx.push l content mode) (lx'.push (l.moved o) content mode) where
  tokens := by
    simp only [Lexer.push, h.tokens, Line.span_moved, List.map_append, List.append_assoc]
    rfl
  diagnostics := h.diagnostics
  mode := .inl rfl
  tagsOpen _ := by simp [Lexer.push]

theorem Behind.report (h : Behind seen o lx lx') (p : Problem) :
    Behind seen o (lx.report l p) (lx'.report (l.moved o) p) where
  tokens := h.tokens
  diagnostics := by
    simp only [Lexer.report, h.diagnostics, List.map_append, Problem.located_moved]
    rfl
  mode := h.mode
  tagsOpen := h.tagsOpen

theorem Behind.fail (h : Behind seen o lx lx') (p : Problem) :
    Behind seen o (lx.fail l p) (lx'.fail (l.moved o) p) where
  tokens := h.tokens
  diagnostics := (h.report (l := l) p).diagnostics
  mode := .inl rfl
  tagsOpen hm := by cases hm

theorem Behind.heading (h : Behind seen o lx lx') (kind : HeadingKind) (title : Text) :
    Behind seen o (lx.heading l kind title) (lx'.heading (l.moved o) kind title) := by
  unfold Lexer.heading
  split
  case isTrue => exact h.fail _
  case isFalse => exact h.push _ _

/-- The last token is replaced in both. -/
theorem Behind.replaceLast (h : Behind seen o lx lx') {t u : Token}
    (hlast : lx.tokens.getLast? = some t) (mode : Mode) :
    Behind seen o { lx with tokens := lx.tokens.dropLast ++ [u], mode := mode }
      { lx' with tokens := lx'.tokens.dropLast ++ [u.moved o], mode := mode } where
  tokens := by
    obtain ⟨init, hinit⟩ := List.getLast?_eq_some_iff.1 hlast
    have htokens : lx'.tokens = (seen ++ init.map (Token.moved o)) ++ [t.moved o] := by
      rw [h.tokens, hinit, List.map_append, List.append_assoc]
      rfl
    rw [htokens, hinit, List.dropLast_concat, List.dropLast_concat, List.map_append,
      List.append_assoc]
    rfl
  diagnostics := h.diagnostics
  mode := .inl rfl
  tagsOpen _ := by simp

theorem Behind.getLast?_eq (h : Behind seen o lx lx') {t : Token}
    (hlast : lx.tokens.getLast? = some t) : lx'.tokens.getLast? = some (t.moved o) := by
  obtain ⟨init, hinit⟩ := List.getLast?_eq_some_iff.1 hlast
  rw [h.tokens, hinit, List.map_append, ← List.append_assoc]
  exact List.getLast?_concat

/-- An underline finds the same prose in both, or none. -/
theorem Behind.underline (h : Behind seen o lx lx') (hseen : ∀ t ∈ seen.getLast?, t.isProse = false)
    (kind : HeadingKind) :
    Behind seen o (lx.underline l kind) (lx'.underline (l.moved o) kind) := by
  have hcomment : Behind seen o (lx.comment l l.text.trimEnd)
      (lx'.comment (l.moved o) (l.moved o).text.trimEnd) := h.push _ _
  unfold Lexer.underline
  cases hlast : lx.tokens.getLast? with
  | none =>
    have hlast' : lx'.tokens.getLast? = seen.getLast? := by
      rw [h.tokens, List.getLast?_eq_none_iff.1 hlast, List.map_nil, List.append_nil]
    rw [hlast']
    cases hend : seen.getLast? with
    | none => exact hcomment
    | some t =>
      have ht : t.isProse = false := hseen t hend
      simp only [ht, Bool.false_eq_true, and_false, if_false]
      exact hcomment
  | some t =>
    have hlast' := h.getLast?_eq hlast
    simp only [hlast']
    have htoken : underlined kind (l.moved o) (t.moved o) = (underlined kind l t).moved o := by
      simp only [underlined, Line.span_moved, Token.moved, Span.union_moved]
      rfl
    rcases h.mode with heq | ⟨-, -, hprose⟩
    · rw [heq, htoken]
      have hiff : (lx.mode = .comment ∧ (t.moved o).isProse) ↔ lx.mode = .comment ∧ t.isProse := by
        rw [Token.isProse_moved]
      by_cases hp : lx.mode = .comment ∧ t.isProse
      · rw [if_pos hp, if_pos (hiff.2 hp)]
        exact h.replaceLast hlast _
      · rw [if_neg hp, if_neg (mt hiff.1 hp)]
        exact hcomment
    · have ht : ¬ (t.moved o).isProse := Bool.eq_false_iff.1 (hprose (t.moved o) hlast')
      rw [if_neg fun hp => ht hp.2, if_neg fun hp => ht hp.2]
      exact hcomment

/-- Tags go on in both: an open list is a token of its own. -/
theorem Behind.continueTags (h : Behind seen o lx lx') (hm : lx.mode = .tags) (text : Text) :
    Behind seen o (lx.continueTags l text) (lx'.continueTags (l.moved o) text) := by
  obtain ⟨t, hlast⟩ : ∃ t, lx.tokens.getLast? = some t :=
    Option.isSome_iff_exists.1 (by simpa using h.tagsOpen hm)
  have htoken : continued (l.moved o) text (t.moved o) = (continued l text t).moved o := by
    obtain ⟨no, span, lineText, content⟩ := t
    cases content with
    | tags value values =>
      simp only [continued, Token.moved, Line.span_moved, Span.union_moved]
    | heading | comment | step | tableHeader | tableRow | dataTable | tearDown => rfl
  simp only [Lexer.continueTags, hlast, h.getLast?_eq hlast, Option.map_some, Option.toList_some,
    htoken]
  exact h.replaceLast hlast _

theorem Behind.tableLine (h : Behind seen o lx lx') (row : Text) :
    Behind seen o (lx.tableLine l row) (lx'.tableLine (l.moved o) row) := by
  have hmode : lx'.mode = .table ↔ lx.mode = .table := h.mode_iff (by decide) (by decide)
  simp only [Lexer.tableLine, hmode]
  split
  case isTrue => exact h.push _ _
  case isFalse =>
    cases Row.headerFault? (Row.splitCells row) with
    | some fault => exact (h.report (.header fault)).push _ _
    | none => exact h.push _ _

/-- A `table:` line leaves the modes as they are, and a token that is no prose. -/
theorem Behind.dataTable (h : Behind seen o lx lx') (path : Text) :
    Behind seen o (lx.dataTable l path) (lx'.dataTable (l.moved o) path) := by
  unfold Lexer.dataTable
  split
  case isTrue => exact h.report _
  case isFalse =>
    have hpush := h.push (l := l) (.dataTable path) lx.mode
    refine ⟨hpush.tokens, h.diagnostics, ?_, hpush.tagsOpen⟩
    refine h.mode.imp id fun ⟨hfresh, hcomment, _⟩ => ⟨hfresh, hcomment, fun t ht => ?_⟩
    have hlast : some _ = some t := List.getLast?_concat.symm.trans ht
    rw [← Option.some.inj hlast]
    rfl

theorem Behind.tearDown (h : Behind seen o lx lx') (marker : Text) :
    Behind seen o (lx.tearDown l marker) (lx'.tearDown (l.moved o) marker) := by
  unfold Lexer.tearDown
  split
  case isTrue => exact h.fail _
  case isFalse => exact h.push _ _

theorem Behind.other (h : Behind seen o lx lx') (hseen : ∀ t ∈ seen.getLast?, t.isProse = false)
    (shape : Shape) : Behind seen o (lx.other l shape) (lx'.other (l.moved o) shape) := by
  have hmode : lx'.mode = .tags ↔ lx.mode = .tags := h.mode_iff (by decide) (by decide)
  -- four of the shapes give way to the tags above
  have hor : ∀ {a a' : Lexer}, Behind seen o a a' →
      Behind seen o (if lx.mode = .tags then lx.continueTags l l.text.trim else a)
        (if lx'.mode = .tags then lx'.continueTags (l.moved o) (l.moved o).text.trim else a') := by
    intro a a' ha
    simp only [hmode]
    split
    case isTrue hm => exact h.continueTags hm _
    case isFalse => exact ha
  cases shape with
  | blank => exact h.push _ _
  | heading kind title => exact h.heading kind title
  | underline kind => exact h.underline hseen kind
  | step => exact h
  | tags text => exact h.push _ _
  | tableLine => exact hor (h.tableLine _)
  | dataTable path => exact hor (h.dataTable path)
  | tearDown => exact hor (h.tearDown _)
  | prose => exact hor (h.push _ _)

/-! ### A step, one line, all lines -/

theorem Behind.pushStep (h : Behind seen o lx lx') (text : Text) (scanned : StepText.Scanned)
    (block : Option Text) :
    Behind seen o (lx.pushStep l text scanned block)
      (lx'.pushStep (l.moved o) text scanned block) where
  tokens := by
    simp only [Lexer.pushStep, h.tokens, Line.span_moved, List.map_append, List.append_assoc]
    rfl
  diagnostics := h.diagnostics
  mode := .inl rfl
  tagsOpen hm := by cases hm

theorem Behind.step (h : Behind seen o lx lx') (text : Text) (rest : List Line) :
    Behind seen o (lx.step l text rest).1
        (lx'.step (l.moved o) text (rest.map (Line.moved o))).1 ∧
      (lx'.step (l.moved o) text (rest.map (Line.moved o))).2 =
        (lx.step l text rest).2.map (Line.moved o) := by
  unfold Lexer.step
  cases StepText.scan text with
  | error fault => exact ⟨h.fail _, rfl⟩
  | ok scanned =>
    cases rest with
    | nil => exact ⟨h.pushStep text scanned none, rfl⟩
    | cons next after =>
      simp only [List.map_cons, Line.isFence_moved, Line.takeBlock_moved]
      split
      case isFalse => exact ⟨h.pushStep text scanned none, rfl⟩
      case isTrue =>
        cases Line.takeBlock after with
        | none => exact ⟨h.fail _, rfl⟩
        | some found => exact ⟨h.pushStep text scanned _, rfl⟩

/-- **One line is read the same further down**, with the same lines left. -/
theorem Behind.consume (h : Behind seen o lx lx')
    (hseen : ∀ t ∈ seen.getLast?, t.isProse = false) (l : Line) (rest : List Line) :
    Behind seen o (lx.consume l rest).1
        (lx'.consume (l.moved o) (rest.map (Line.moved o))).1 ∧
      (lx'.consume (l.moved o) (rest.map (Line.moved o))).2 =
        (lx.consume l rest).2.map (Line.moved o) := by
  unfold Lexer.consume
  rw [Line.shape_moved]
  split
  case h_1 text _ => exact h.step text rest
  case h_2 => exact ⟨h.other hseen _, rfl⟩

/-- **All lines are read the same further down.** -/
theorem Behind.run (h : Behind seen o lx lx') (hseen : ∀ t ∈ seen.getLast?, t.isProse = false)
    (ls : List Line) : Behind seen o (lx.run ls) (lx'.run (ls.map (Line.moved o))) := by
  fun_induction Lexer.run lx ls generalizing lx' with
  | case1 lx => rwa [List.map_nil, Lexer.run]
  | case2 lx l rest ih =>
    obtain ⟨hnext, hleft⟩ := h.consume hseen l rest
    rw [List.map_cons, Lexer.run, hleft]
    exact ih hnext

end

end Lexer

end ScenarioBook
