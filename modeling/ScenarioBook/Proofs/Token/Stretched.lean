import Mathlib.Order.MinMax
import ScenarioBook.Proofs.Token.Consume

/-!
# Reading lines at other offsets

The lexer does not look at byte offsets, it only writes them down. Let `g` move the offsets of a
source without changing their order (`Span.stretched`), and let it move both ends of each line alike
(`Line.Rigid`). Then the moved lines give the same tokens and the same diagnostics, with their spans
moved: this holds of each line (`Lexer.consume_stretched`) and so of all of them
(`Lexer.run_stretched`). Hence a source whose lines are those of another one, at other offsets, is
read like that (`tokenize_stretched`).
-/

set_option autoImplicit false

namespace ScenarioBook

/-! ## Other offsets -/

def Span.stretched (g : Nat → Nat) (s : Span) : Span := ⟨g s.start, g s.stop⟩

/-- The same line at another offset. -/
def Line.stretched (g : Nat → Nat) (l : Line) : Line := ⟨l.no, g l.start, l.text⟩

/-- The end of the line moves as far as its start. -/
def Line.Rigid (g : Nat → Nat) (l : Line) : Prop := g l.span.stop = g l.start + l.text.utf8Size

/-- The same token at other offsets. -/
def Token.stretched (g : Nat → Nat) (t : Token) : Token := { t with span := t.span.stretched g }

def Label.stretched (g : Nat → Nat) (label : Label) : Label :=
  { label with span := label.span.stretched g }

/-- The same diagnostic with its labels at other offsets. -/
def Diagnostic.stretched (g : Nat → Nat) (d : Diagnostic) : Diagnostic :=
  { d with labels := d.labels.map (Label.stretched g) }

def Rejection.stretched (g : Nat → Nat) (r : Rejection) : Rejection :=
  ⟨r.diagnostics.map (Diagnostic.stretched g)⟩

/-- The same lexer with all it has written down at other offsets. -/
def Lexer.stretched (g : Nat → Nat) (lx : Lexer) : Lexer :=
  ⟨lx.tokens.map (Token.stretched g), lx.mode, lx.diagnostics.map (Diagnostic.stretched g)⟩

section
variable {g : Nat → Nat}

/-- A map that keeps the order keeps the ends of a union. -/
theorem Span.union_stretched (hg : Monotone g) (s t : Span) :
    (s.stretched g).union (t.stretched g) = (s.union t).stretched g := by
  simp only [union, stretched, hg.map_min, hg.map_max]

theorem Line.Rigid.span {l : Line} (h : l.Rigid g) :
    (l.stretched g).span = l.span.stretched g := by
  simp only [Line.span, Line.stretched, Span.stretched, Span.mk.injEq, true_and]
  exact h.symm

theorem Line.shape_stretched (l : Line) : (l.stretched g).shape = l.shape := rfl

theorem Line.takeBlock_stretched (ls : List Line) :
    takeBlock (ls.map (stretched g)) =
      (takeBlock ls).map fun (block, rest) => (block, rest.map (stretched g)) := by
  induction ls with
  | nil => rfl
  | cons l ls ih =>
    have hfence : (l.stretched g).isFence = l.isFence := rfl
    rw [List.map_cons, takeBlock, takeBlock, hfence]
    split
    case isTrue => rfl
    case isFalse => rw [ih, Option.map_map, Option.map_map]; rfl

theorem any_isError_stretched (found : List Diagnostic) :
    (found.map (Diagnostic.stretched g)).any (·.isError) = found.any (·.isError) := List.any_map

end

namespace Lexer

section
variable {g : Nat → Nat} {l : Line} (lx : Lexer)

/-! ## What a line does -/

theorem push_stretched (hl : l.Rigid g) (content : Token.Content) (mode : Mode) :
    (lx.stretched g).push (l.stretched g) content mode = (lx.push l content mode).stretched g := by
  simp only [push, stretched, List.map_append, hl.span]
  rfl

theorem report_stretched (hl : l.Rigid g) (p : Problem) :
    (lx.stretched g).report (l.stretched g) p = (lx.report l p).stretched g := by
  simp only [report, stretched, List.map_append, hl.span]
  rfl

theorem fail_stretched (hl : l.Rigid g) (p : Problem) :
    (lx.stretched g).fail (l.stretched g) p = (lx.fail l p).stretched g := by
  rw [fail, report_stretched lx hl]
  rfl

theorem heading_stretched (hl : l.Rigid g) (kind : HeadingKind) (title : Text) :
    (lx.stretched g).heading (l.stretched g) kind title =
      (lx.heading l kind title).stretched g := by
  unfold heading
  split
  · exact lx.fail_stretched hl _
  · exact lx.push_stretched hl _ _

/-- The last token is replaced by one that is moved as well. -/
theorem replaceLast_stretched (ts : List Token) (mode : Mode) :
    { lx.stretched g with
      tokens := (lx.stretched g).tokens.dropLast ++ ts.map (Token.stretched g), mode := mode } =
    ({ lx with tokens := lx.tokens.dropLast ++ ts, mode := mode } : Lexer).stretched g := by
  simp only [stretched, List.map_append, List.map_dropLast]

theorem underline_stretched (hg : Monotone g) (hl : l.Rigid g) (kind : HeadingKind) :
    (lx.stretched g).underline (l.stretched g) kind = (lx.underline l kind).stretched g := by
  have hcomment : (lx.stretched g).comment (l.stretched g) (l.stretched g).text.trimEnd =
      (lx.comment l l.text.trimEnd).stretched g := lx.push_stretched hl _ _
  have hlast : (lx.stretched g).tokens.getLast? = lx.tokens.getLast?.map (Token.stretched g) :=
    List.getLast?_map
  unfold underline
  rw [hlast]
  cases lx.tokens.getLast? with
  | none => exact hcomment
  | some t =>
    have htoken : underlined kind (l.stretched g) (t.stretched g) =
        (underlined kind l t).stretched g := by
      simp only [underlined, Token.stretched, hl.span, Span.union_stretched hg]
      rfl
    simp only [Option.map_some, htoken]
    show (if lx.mode = .comment ∧ t.isProse then _ else _) = _
    split
    · exact lx.replaceLast_stretched [underlined kind l t] .fresh
    · exact hcomment

theorem continueTags_stretched (hg : Monotone g) (hl : l.Rigid g) (text : Text) :
    (lx.stretched g).continueTags (l.stretched g) text = (lx.continueTags l text).stretched g := by
  have htoken : ∀ t, continued (l.stretched g) text (Token.stretched g t) =
      (continued l text t).stretched g := by
    rintro ⟨no, span, lineText, content⟩
    cases content with
    | tags value values =>
      simp only [continued, Token.stretched, hl.span, Span.union_stretched hg]
    | heading | comment | step | tableHeader | tableRow | dataTable | tearDown => rfl
  have hlast : ((lx.stretched g).tokens.getLast?.map (continued (l.stretched g) text)).toList =
      (lx.tokens.getLast?.map (continued l text)).toList.map (Token.stretched g) := by
    have hget : (lx.stretched g).tokens.getLast? = lx.tokens.getLast?.map (Token.stretched g) :=
      List.getLast?_map
    rw [hget]
    cases lx.tokens.getLast? with
    | none => rfl
    | some t => simp [htoken]
  rw [continueTags, hlast]
  exact lx.replaceLast_stretched _ _

theorem tableLine_stretched (hl : l.Rigid g) (row : Text) :
    (lx.stretched g).tableLine (l.stretched g) row = (lx.tableLine l row).stretched g := by
  simp only [tableLine]
  show (if lx.mode = .table then _ else _) = _
  split
  · exact lx.push_stretched hl _ _
  · cases Row.headerFault? (Row.splitCells row) with
    | some fault =>
      simp only [lx.report_stretched hl]
      exact (lx.report l (.header fault)).push_stretched hl _ _
    | none => exact lx.push_stretched hl _ _

theorem dataTable_stretched (hl : l.Rigid g) (path : Text) :
    (lx.stretched g).dataTable (l.stretched g) path = (lx.dataTable l path).stretched g := by
  unfold dataTable
  split
  · exact lx.report_stretched hl _
  · exact lx.push_stretched hl _ _

theorem tearDown_stretched (hl : l.Rigid g) (marker : Text) :
    (lx.stretched g).tearDown (l.stretched g) marker = (lx.tearDown l marker).stretched g := by
  unfold tearDown
  split
  · exact lx.fail_stretched hl _
  · exact lx.push_stretched hl _ _

theorem other_stretched (hg : Monotone g) (hl : l.Rigid g) (shape : Shape) :
    (lx.stretched g).other (l.stretched g) shape = (lx.other l shape).stretched g := by
  -- four of the shapes give way to the tags above
  have hor : ∀ {a a' : Lexer}, a' = a.stretched g →
      (if (lx.stretched g).mode = .tags then
        (lx.stretched g).continueTags (l.stretched g) (l.stretched g).text.trim else a') =
      (if lx.mode = .tags then lx.continueTags l l.text.trim else a).stretched g := by
    rintro a _ rfl
    show (if lx.mode = .tags then _ else _) = _
    split
    · exact lx.continueTags_stretched hg hl _
    · rfl
  cases shape with
  | blank => exact lx.push_stretched hl _ _
  | heading kind title => exact lx.heading_stretched hl kind title
  | underline kind => exact lx.underline_stretched hg hl kind
  | step => rfl
  | tags text => exact lx.push_stretched hl _ _
  | tableLine => exact hor (lx.tableLine_stretched hl _)
  | dataTable path => exact hor (lx.dataTable_stretched hl path)
  | tearDown => exact hor (lx.tearDown_stretched hl _)
  | prose => exact hor (lx.push_stretched hl _ _)

/-! ## A step, one line, all lines -/

theorem pushStep_stretched (hl : l.Rigid g) (text : Text) (scanned : StepText.Scanned)
    (block : Option Text) :
    (lx.stretched g).pushStep (l.stretched g) text scanned block =
      (lx.pushStep l text scanned block).stretched g := by
  simp only [pushStep, stretched, List.map_append, hl.span]
  rfl

theorem step_stretched (hl : l.Rigid g) (text : Text) {rest : List Line}
    (hrest : ∀ m ∈ rest, m.Rigid g) :
    (lx.stretched g).step (l.stretched g) text (rest.map (Line.stretched g)) =
      ((lx.step l text rest).1.stretched g, (lx.step l text rest).2.map (Line.stretched g)) := by
  unfold step
  cases StepText.scan text with
  | error fault => simp only [lx.fail_stretched hl]
  | ok scanned =>
    cases rest with
    | nil => simp only [List.map_nil, lx.pushStep_stretched hl]
    | cons next after =>
      have hfence : (next.stretched g).isFence = next.isFence := rfl
      simp only [List.map_cons, hfence, Line.takeBlock_stretched]
      split
      · cases Line.takeBlock after with
        | none => simp only [Option.map_none, lx.fail_stretched (hrest next List.mem_cons_self),
            List.map_nil]
        | some found => simp only [Option.map_some, lx.pushStep_stretched hl]
      · simp only [lx.pushStep_stretched hl, List.map_cons]

/-- **One line is read the same at another offset**, with the same lines left. -/
theorem consume_stretched (hg : Monotone g) (hl : l.Rigid g) {rest : List Line}
    (hrest : ∀ m ∈ rest, m.Rigid g) :
    (lx.stretched g).consume (l.stretched g) (rest.map (Line.stretched g)) =
      ((lx.consume l rest).1.stretched g, (lx.consume l rest).2.map (Line.stretched g)) := by
  unfold consume
  rw [Line.shape_stretched]
  split
  case h_1 text _ => exact lx.step_stretched hl text hrest
  case h_2 => rw [lx.other_stretched hg hl]

/-- **All lines are read the same at other offsets.** -/
theorem run_stretched (hg : Monotone g) {ls : List Line} (hls : ∀ m ∈ ls, m.Rigid g) :
    (lx.stretched g).run (ls.map (Line.stretched g)) = (lx.run ls).stretched g := by
  fun_induction Lexer.run lx ls with
  | case1 lx => rw [List.map_nil, run]
  | case2 lx l rest ih =>
    obtain ⟨hl, hrest⟩ := List.forall_mem_cons.1 hls
    have hleft : ∀ m ∈ (lx.consume l rest).2, m.Rigid g := fun m hm =>
      hrest m ((lx.consume_suffix l rest).subset hm)
    rw [List.map_cons, run, lx.consume_stretched hg hl hrest]
    exact ih hleft

end

end Lexer

/-! ## A source -/

/-- The outcome of reading something from a source, at other offsets: `f` moves what was read. -/
def stretchOutcome {α : Type} (g : Nat → Nat) (f : α → α) :
    Except Rejection α → Except Rejection α
  | .ok a => .ok (f a)
  | .error rejection => .error (rejection.stretched g)

theorem bind_stretchOutcome {α β : Type} {g : Nat → Nat} {f : α → α} {h : β → β}
    {next next' : α → Except Rejection β} (hnext : ∀ a, next' (f a) = stretchOutcome g h (next a))
    (outcome : Except Rejection α) :
    (stretchOutcome g f outcome >>= next') = stretchOutcome g h (outcome >>= next) := by
  cases outcome with
  | error rejection => rfl
  | ok a => exact hnext a

/-- **A source with the same lines at other offsets is read the same.** -/
theorem tokenize_stretched {g : Nat → Nat} (hg : Monotone g) {source source' : Text}
    (hrigid : ∀ l ∈ Line.ofSource source, l.Rigid g)
    (hlines : Line.ofSource source' = (Line.ofSource source).map (Line.stretched g)) :
    tokenize source' = stretchOutcome g (List.map (Token.stretched g)) (tokenize source) := by
  have hrun : Lexer.start.run (Line.ofSource source') =
      (Lexer.start.run (Line.ofSource source)).stretched g := by
    rw [hlines]
    exact Lexer.start.run_stretched hg hrigid
  unfold tokenize
  simp only [hrun, Lexer.stretched, any_isError_stretched]
  split
  · rfl
  · rfl

/-! ## What is found beside a result -/

/-- The same result with its warnings at other offsets. -/
def Parsed.stretched {α : Type} (g : Nat → Nat) (parsed : Parsed α) : Parsed α :=
  { parsed with warnings := parsed.warnings.map (Diagnostic.stretched g) }

theorem Parsed.settle_stretched {α : Type} {g : Nat → Nat} (document : α)
    (found : List Diagnostic) :
    settle document (found.map (Diagnostic.stretched g)) =
      stretchOutcome g (stretched g) (settle document found) := by
  unfold settle
  rw [any_isError_stretched]
  split
  · rfl
  · rfl

end ScenarioBook
