import ScenarioBook.Proofs.Token.Consume

/-!
# The diagnostics of the lexer

Which diagnostics a line gives depends on the line, the lines behind it and the mode, and not on the
tokens so far: `Lexer.faults` gives them, each with the line it names, `Lexer.modeAfter` the mode
behind the line, and `Lexer.left` the lines that are left. The tokens have a part in the mode only
where a comment is underlined, and no diagnostic tells a comment from a fresh start (`Mode.plain`).
So the diagnostics of a source are those of `Lexer.allFaults`, which reads the lines and nothing
else (`Lexer.diagnostics_run_eq`). Each names one of these lines (`Lexer.mem_of_mem_allFaults`).
-/

set_option autoImplicit false

namespace ScenarioBook

/-- The mode without the difference between a comment and a fresh start. -/
def Mode.plain : Mode → Mode
  | .comment => .fresh
  | mode => mode

/-- The place that a problem is reported at: a line as a whole. -/
def Line.diagnostic (l : Line) (p : Problem) : Diagnostic := p.located l.no l.text l.span

namespace Lexer

/-! ## What one line gives -/

/-- What is wrong with a step, or with the block below it. -/
def stepFaults (l : Line) (text : Text) (rest : List Line) : List (Line × Problem) :=
  match StepText.scan text with
  | .error fault => [(l, .stepText fault)]
  | .ok _ =>
    match rest with
    | [] => []
    | next :: after =>
      if next.isFence ∧ Line.takeBlock after = none then [(next, .openBlock)] else []

/-- What is wrong with a line that is no step. -/
def lineFaults (mode : Mode) (l : Line) : Shape → List Problem
  | .heading kind title => if kind = .scenario ∧ title.isEmpty then [.blankScenario] else []
  | .tableLine =>
    if mode = .tags then []
    else if mode = .table then []
    else ((Row.headerFault? (Row.splitCells l.text.trim)).map Problem.header).toList
  | .dataTable path => if mode = .tags then [] else if path.isEmpty then [.noTableLocation] else []
  | .tearDown =>
    if mode = .tags then [] else if l.text.trim.length < 3 then [.shortTearDown] else []
  | _ => []

/-- What is wrong with a line and the block below it, with the lines it is reported at. -/
def faults (mode : Mode) (l : Line) (rest : List Line) : List (Line × Problem) :=
  match l.shape with
  | .step text => stepFaults l text rest
  | shape => (lineFaults mode l shape).map (Prod.mk l)

/-- The mode behind a line, comments taken for a fresh start. -/
def modeAfter (mode : Mode) (l : Line) : Mode :=
  match l.shape with
  | .tags text => modeAfterTags text
  | .tableLine => if mode = .tags then modeAfterTags l.text.trim else .table
  | .dataTable _ => if mode = .tags then modeAfterTags l.text.trim else mode
  | .tearDown | .prose => if mode = .tags then modeAfterTags l.text.trim else .fresh
  | _ => .fresh

/-- The lines behind a line, without the block below it if it is a step. -/
def left (l : Line) (rest : List Line) : List Line :=
  match l.shape with
  | .step text =>
    match StepText.scan text, rest with
    | .ok _, next :: after =>
      if next.isFence then ((Line.takeBlock after).map (·.2)).getD [] else rest
    | _, _ => rest
  | _ => rest

/-- From `lx` to `lx'` the problems `found` are reported, and the mode is then `mode`. -/
structure Gives (lx lx' : Lexer) (found : List (Line × Problem)) (mode : Mode) : Prop where
  diagnostics : lx'.diagnostics = lx.diagnostics ++ found.map fun (l, p) => l.diagnostic p
  mode : lx'.mode.plain = mode

section
variable (lx : Lexer) (l : Line) (rest : List Line)

theorem plain_modeAfterTags (text : Text) : (modeAfterTags text).plain = modeAfterTags text := by
  unfold modeAfterTags
  split <;> rfl

/-- What is read of a mode does not change when comments are taken for a fresh start. -/
theorem plain_eq_iff (mode : Mode) : (mode.plain = .tags ↔ mode = .tags) ∧
    (mode.plain = .table ↔ mode = .table) := by
  cases mode <;> decide

theorem gives_of_same {lx' : Lexer} (h : lx'.diagnostics = lx.diagnostics) :
    lx.Gives lx' [] lx'.mode.plain := ⟨by rw [h, List.map_nil, List.append_nil], rfl⟩

theorem gives_push (content : Token.Content) (mode : Mode) :
    lx.Gives (lx.push l content mode) [] mode.plain := lx.gives_of_same rfl

theorem gives_report (p : Problem) : lx.Gives (lx.report l p) [(l, p)] lx.mode.plain := ⟨rfl, rfl⟩

theorem gives_fail (p : Problem) : lx.Gives (lx.fail l p) [(l, p)] .fresh := ⟨rfl, rfl⟩

theorem gives_continueTags (text : Text) :
    lx.Gives (lx.continueTags l text) [] (modeAfterTags text) := by
  rw [← plain_modeAfterTags]
  exact lx.gives_of_same rfl

theorem gives_heading (kind : HeadingKind) (title : Text) :
    lx.Gives (lx.heading l kind title)
      ((if kind = .scenario ∧ title.isEmpty then [.blankScenario] else []).map (Prod.mk l))
      .fresh := by
  unfold heading
  split
  · exact lx.gives_fail l _
  · exact lx.gives_push l _ _

/-- An underline is the one place where the tokens have a part in the mode. -/
theorem gives_underline (kind : HeadingKind) : lx.Gives (lx.underline l kind) [] .fresh := by
  unfold underline
  split
  · split
    · exact lx.gives_of_same rfl
    · exact lx.gives_push l _ .comment
  · exact lx.gives_push l _ .comment

theorem gives_tableLine (row : Text) :
    lx.Gives (lx.tableLine l row)
      ((if lx.mode = .table then []
        else ((Row.headerFault? (Row.splitCells row)).map Problem.header).toList).map (Prod.mk l))
      .table := by
  simp only [tableLine]
  split
  · exact lx.gives_push l _ _
  · cases Row.headerFault? (Row.splitCells row) with
    | none => exact lx.gives_push l _ _
    | some fault => exact ⟨rfl, rfl⟩

theorem gives_dataTable (path : Text) :
    lx.Gives (lx.dataTable l path)
      ((if path.isEmpty then [.noTableLocation] else []).map (Prod.mk l)) lx.mode.plain := by
  unfold dataTable
  split
  · exact lx.gives_report l _
  · exact lx.gives_push l _ _

theorem gives_tearDown (marker : Text) :
    lx.Gives (lx.tearDown l marker)
      ((if marker.length < 3 then [.shortTearDown] else []).map (Prod.mk l)) .fresh := by
  unfold tearDown
  split
  · exact lx.gives_fail l _
  · exact lx.gives_push l _ _

theorem gives_step (text : Text) :
    lx.Gives (lx.step l text rest).1 (stepFaults l text rest) .fresh := by
  unfold step stepFaults
  cases StepText.scan text with
  | error fault => exact lx.gives_fail l _
  | ok scanned =>
    cases rest with
    | nil => exact lx.gives_of_same rfl
    | cons next after =>
      simp only
      split
      case isTrue hf =>
        cases Line.takeBlock after with
        | none =>
          simp only [hf, and_self, if_true]
          exact lx.gives_fail next _
        | some found =>
          simp only [reduceCtorEq, and_false, if_false]
          exact lx.gives_of_same rfl
      case isFalse hf =>
        simp only [hf, Bool.false_eq_true, false_and, if_false]
        exact lx.gives_of_same rfl

/-- A line that gives way to open tags reports nothing then. -/
theorem gives_or_tags {lx' : Lexer} {found : List Problem} {mode : Mode}
    (h : lx.mode ≠ .tags → lx.Gives lx' (found.map (Prod.mk l)) mode) :
    lx.Gives (if lx.mode = .tags then lx.continueTags l l.text.trim else lx')
      ((if lx.mode = .tags then [] else found).map (Prod.mk l))
      (if lx.mode = .tags then modeAfterTags l.text.trim else mode) := by
  split
  case isTrue => exact lx.gives_continueTags l _
  case isFalse hm => exact h hm

/-- **What a line reports and the mode it leaves** depend on the mode, the line and the lines behind
it. -/
theorem gives_consume :
    lx.Gives (lx.consume l rest).1 (faults lx.mode.plain l rest) (modeAfter lx.mode.plain l) := by
  obtain ⟨htags, htable⟩ := plain_eq_iff lx.mode
  unfold consume faults modeAfter
  cases hs : l.shape with
  | step text => exact lx.gives_step l rest text
  | blank => exact lx.gives_push l _ .comment
  | heading kind title => exact lx.gives_heading l kind title
  | underline kind => exact lx.gives_underline l kind
  | tags text =>
    have hpush := lx.gives_push l (.tags text.trim (splitTags text)) (modeAfterTags text)
    rwa [plain_modeAfterTags] at hpush
  | tableLine =>
    simp only [lineFaults, htags, htable]
    exact lx.gives_or_tags l fun _ => lx.gives_tableLine l _
  | dataTable path =>
    simp only [lineFaults, htags]
    exact lx.gives_or_tags l fun _ => lx.gives_dataTable l path
  | tearDown =>
    simp only [lineFaults, htags]
    exact lx.gives_or_tags l fun _ => lx.gives_tearDown l _
  | prose =>
    have hpush : lx.Gives (lx.comment l l.text.trimEnd) (([] : List Problem).map (Prod.mk l))
        .fresh := lx.gives_push l _ .comment
    have hor := lx.gives_or_tags l fun _ => hpush
    rw [ite_self] at hor
    simp only [lineFaults, htags]
    exact hor

theorem left_consume : (lx.consume l rest).2 = left l rest := by
  unfold consume left
  cases hs : l.shape with
  | step text =>
    simp only [step]
    cases StepText.scan text with
    | error fault => rfl
    | ok scanned =>
      cases rest with
      | nil => rfl
      | cons next after =>
        simp only
        split
        · cases Line.takeBlock after <;> rfl
        · rfl
  | blank | heading | underline | tags | tableLine | dataTable | tearDown | prose => rfl

theorem left_suffix : left l rest <:+ rest := by
  rw [← left_consume start]
  exact start.consume_suffix l rest

end

/-! ## What all lines give -/

/-- What is wrong with the lines of a source, in order. -/
def allFaults (mode : Mode) : List Line → List (Line × Problem)
  | [] => []
  | l :: rest => faults mode l rest ++ allFaults (modeAfter mode l) (left l rest)
termination_by ls => ls.length
decreasing_by exact Nat.lt_succ_of_le (left_suffix l rest).length_le

/-- **The diagnostics of the lexer are found without its tokens.** -/
theorem diagnostics_run_eq (lx : Lexer) (ls : List Line) :
    (lx.run ls).diagnostics =
      lx.diagnostics ++ (allFaults lx.mode.plain ls).map (fun (m, p) => m.diagnostic p) := by
  fun_induction Lexer.run lx ls with
  | case1 lx => rw [allFaults, List.map_nil, List.append_nil]
  | case2 lx l rest ih =>
    have hgives := lx.gives_consume l rest
    rw [ih, hgives.diagnostics, hgives.mode, left_consume, allFaults, List.map_append,
      List.append_assoc]

/-- What a line can be reported for: as a step that cannot be read, as the open fence below a step,
or for a fault that is not one of steps. -/
inductive Faulty (mode : Mode) (l : Line) (rest : List Line) : Line → Problem → Prop
  | step {text : Text} {fault : StepText.Fault} (hs : l.shape = .step text)
      (hscan : StepText.scan text = .error fault) : Faulty mode l rest l (.stepText fault)
  | block {next : Line} {after : List Line} (hrest : rest = next :: after) (hf : next.isFence) :
      Faulty mode l rest next .openBlock
  | other {p : Problem} (hp : p ∈ lineFaults mode l l.shape) : Faulty mode l rest l p

theorem faulty_of_mem {mode : Mode} {l m : Line} {rest : List Line} {p : Problem}
    (h : (m, p) ∈ faults mode l rest) : Faulty mode l rest m p := by
  unfold faults at h
  split at h
  case h_1 text hs =>
    unfold stepFaults at h
    split at h
    case h_1 fault hscan =>
      cases List.mem_singleton.1 h
      exact .step hs hscan
    case h_2 =>
      split at h
      case h_1 => cases h
      case h_2 next after =>
        split at h
        case isTrue hopen =>
          cases List.mem_singleton.1 h
          exact .block rfl hopen.1
        case isFalse => cases h
  case h_2 =>
    obtain ⟨p, hp, heq⟩ := List.mem_map.1 h
    cases heq
    exact .other hp

/-- What is wrong with a line that is no step is an error, and not the fault of a step. -/
theorem kind_of_mem_lineFaults {mode : Mode} {l : Line} {shape : Shape} {p : Problem}
    (h : p ∈ lineFaults mode l shape) : p.severity = .error ∧ ∀ fault, p ≠ .stepText fault := by
  have hone : ∀ {q : Problem} {P : Prop} [Decidable P], p ∈ (if P then [q] else []) → p = q := by
    intro q P _ hin
    split at hin
    · exact List.mem_singleton.1 hin
    · cases hin
  cases shape with
  | heading => rw [hone h]; exact ⟨rfl, nofun⟩
  | tableLine =>
    simp only [lineFaults] at h
    split at h
    · cases h
    · split at h
      · cases h
      · obtain ⟨fault, -, rfl⟩ := Option.map_eq_some_iff.1 (Option.mem_toList.1 h)
        exact ⟨rfl, nofun⟩
  | dataTable =>
    simp only [lineFaults] at h
    split at h
    · cases h
    · rw [hone h]; exact ⟨rfl, nofun⟩
  | tearDown =>
    simp only [lineFaults] at h
    split at h
    · cases h
    · rw [hone h]; exact ⟨rfl, nofun⟩
  | blank | underline | step | tags | prose => cases h

/-- What holds of the faults of each line, with the lines behind it, holds of all. -/
theorem faulty_of_mem_allFaults {mode : Mode} {m : Line} {ls : List Line} {p : Problem}
    (h : (m, p) ∈ allFaults mode ls) :
    ∃ mode' l rest, l :: rest <:+ ls ∧ Faulty mode' l rest m p := by
  fun_induction allFaults mode ls with
  | case1 => cases h
  | case2 mode l rest ih =>
    rcases List.mem_append.1 h with h | h
    · exact ⟨mode, l, rest, List.suffix_refl _, faulty_of_mem h⟩
    · obtain ⟨mode', l', rest', hsuffix, hfault⟩ := ih h
      exact ⟨mode', l', rest', (hsuffix.trans (left_suffix l rest)).trans (List.suffix_cons l rest),
        hfault⟩

/-- A fault is reported at one of the lines. -/
theorem mem_of_mem_allFaults {mode : Mode} {m : Line} {ls : List Line} {p : Problem}
    (h : (m, p) ∈ allFaults mode ls) : m ∈ ls := by
  obtain ⟨mode', l, rest, hsuffix, hfault⟩ := faulty_of_mem_allFaults h
  refine hsuffix.subset ?_
  cases hfault with
  | step | other => exact List.mem_cons_self
  | block hrest => rw [hrest]; exact List.mem_cons_of_mem _ List.mem_cons_self

/-- All that the lexer reports are errors. -/
theorem severity_of_mem_allFaults {mode : Mode} {m : Line} {ls : List Line} {p : Problem}
    (h : (m, p) ∈ allFaults mode ls) : p.severity = .error := by
  obtain ⟨mode', l, rest, -, hfault⟩ := faulty_of_mem_allFaults h
  cases hfault with
  | step | block => rfl
  | other hp => exact (kind_of_mem_lineFaults hp).1

end Lexer

/-- The diagnostics of a source that the lexer finds, in order. -/
def lexerDiagnostics (source : Text) : List Diagnostic :=
  (Lexer.allFaults .fresh (Line.ofSource source)).map fun (l, p) => l.diagnostic p

/-- A source is rejected with all that is wrong with its lines. -/
theorem lexerDiagnostics_of_tokenize {source : Text} {r : Rejection}
    (h : tokenize source = .error r) : r.diagnostics = lexerDiagnostics source := by
  have hrun := Lexer.start.diagnostics_run_eq (Line.ofSource source)
  unfold tokenize at h
  simp only at h
  split at h
  · cases h
    exact hrun
  · cases h

end ScenarioBook
