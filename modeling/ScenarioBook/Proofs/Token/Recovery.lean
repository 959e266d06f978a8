import Mathlib.Data.List.Nodup
import ScenarioBook.Proofs.Line.Replaced
import ScenarioBook.Proofs.Token.Faults
import ScenarioBook.Proofs.Token.Tiling

/-!
# Errors in steps and what they hide

When a step cannot be read the lexer reports it and goes on with the next line. Without a block
below the step, the rest of the source is then reported as it is with a step that can be read in its
place: what the lexer reports does not depend on the tokens (`Lexer.allFaults`), the lines in front
of the step do not reach behind it (`Lexer.allFaults_front`), and the step leaves the same mode
either way. But a step that cannot be read takes no block. The lines of a block below it are read on
their own, and an open block is not seen at all. `SilentBelow` says when that makes no difference,
and `errors_alone_iff` that it makes one otherwise.
-/

set_option autoImplicit false

namespace ScenarioBook

/-! ## Line numbers and codes -/

/-- The line and the code of a diagnostic. -/
def Diagnostic.mark (d : Diagnostic) : Option Nat × Option Code := (d.lineNo, d.code)

/-- What is reported about a source before it has tokens. -/
def marks : Except Rejection (List Token) → List (Option Nat × Option Code)
  | .error rejection => rejection.diagnostics.map Diagnostic.mark
  | .ok _ => []

namespace Lexer

/-- What is reported about lines that are read on their own. -/
def lineMarks (ls : List Line) : List (Option Nat × Option Code) :=
  (start.run ls).diagnostics.map Diagnostic.mark

/-- The marks of what is wrong with lines. -/
def faultMarks (found : List (Line × Problem)) : List (Option Nat × Option Code) :=
  found.map fun (l, p) => (some l.no, some p.code)

theorem faultMarks_append (found more : List (Line × Problem)) :
    faultMarks (found ++ more) = faultMarks found ++ faultMarks more := List.map_append

theorem lineMarks_eq (ls : List Line) : lineMarks ls = faultMarks (allFaults .fresh ls) := by
  rw [lineMarks, diagnostics_run_eq, List.map_append, List.map_map]
  rfl

theorem marks_tokenize (source : Text) :
    marks (tokenize source) = lineMarks (Line.ofSource source) := by
  rw [lineMarks_eq]
  cases htok : tokenize source with
  | error rejection =>
    rw [marks, lexerDiagnostics_of_tokenize htok, lexerDiagnostics, List.map_map]
    rfl
  | ok tokens =>
    -- an accepted source has no fault, since each would be an error
    have hnone : allFaults .fresh (Line.ofSource source) = [] := by
      rw [List.eq_nil_iff_forall_not_mem]
      rintro ⟨l, p⟩ hfault
      have herror : l.diagnostic p ∈ (start.run (Line.ofSource source)).diagnostics := by
        rw [diagnostics_run_eq]
        exact List.mem_append_right _ (List.mem_map.2 ⟨(l, p), hfault, rfl⟩)
      have hreject : (start.run (Line.ofSource source)).diagnostics.any (·.isError) :=
        List.any_eq_true.2 ⟨_, herror, beq_iff_eq.2 (severity_of_mem_allFaults hfault)⟩
      simp only [tokenize, hreject, if_true] at htok
      cases htok
    rw [hnone]
    rfl

/-! ## Lines at other offsets -/

section
variable {g : Nat → Nat}

theorem stepFaults_stretched (l : Line) (text : Text) (rest : List Line) :
    stepFaults (l.stretched g) text (rest.map (Line.stretched g)) =
      (stepFaults l text rest).map fun (m, p) => (m.stretched g, p) := by
  unfold stepFaults
  cases StepText.scan text with
  | error fault => rfl
  | ok scanned =>
    cases rest with
    | nil => rfl
    | cons next after =>
      have hfence : (next.stretched g).isFence = next.isFence := rfl
      simp only [List.map_cons, hfence, Line.takeBlock_stretched, Option.map_eq_none_iff]
      split <;> rfl

theorem faults_stretched (mode : Mode) (l : Line) (rest : List Line) :
    faults mode (l.stretched g) (rest.map (Line.stretched g)) =
      (faults mode l rest).map fun (m, p) => (m.stretched g, p) := by
  unfold faults
  rw [Line.shape_stretched]
  split
  case h_1 text _ => exact stepFaults_stretched l text rest
  case h_2 shape _ =>
    rw [List.map_map]
    rfl

theorem left_stretched (l : Line) (rest : List Line) :
    left (l.stretched g) (rest.map (Line.stretched g)) = (left l rest).map (Line.stretched g) := by
  unfold left
  rw [Line.shape_stretched]
  split
  case h_1 text _ =>
    cases StepText.scan text with
    | error fault => rfl
    | ok scanned =>
      cases rest with
      | nil => rfl
      | cons next after =>
        have hfence : (next.stretched g).isFence = next.isFence := rfl
        simp only [List.map_cons, hfence, Line.takeBlock_stretched]
        split
        · cases Line.takeBlock after <;> rfl
        · rfl
  case h_2 => rfl

theorem allFaults_stretched (mode : Mode) (ls : List Line) :
    allFaults mode (ls.map (Line.stretched g)) =
      (allFaults mode ls).map fun (m, p) => (m.stretched g, p) := by
  fun_induction allFaults mode ls with
  | case1 mode => rw [List.map_nil, allFaults]; rfl
  | case2 mode l rest ih =>
    rw [List.map_cons, allFaults, faults_stretched, left_stretched, List.map_append]
    exact congrArg _ ih

end

/-- Offsets do not matter to the marks. -/
theorem faultMarks_congr {mode : Mode} {ls ls' : List Line}
    (h : ls'.map (Line.stretched fun _ => 0) = ls.map (Line.stretched fun _ => 0)) :
    faultMarks (allFaults mode ls') = faultMarks (allFaults mode ls) := by
  have hzero : ∀ ms : List Line, faultMarks (allFaults mode ms) =
      faultMarks (allFaults mode (ms.map (Line.stretched fun _ => 0))) := by
    intro ms
    rw [allFaults_stretched, faultMarks, faultMarks, List.map_map]
    rfl
  rw [hzero, h, ← hzero]

/-! ## Up to a step -/

/-- A line with the fault of a step is a step that cannot be read. -/
theorem step_of_mem_allFaults {mode : Mode} {l : Line} {ls : List Line} {fault : StepText.Fault}
    (h : (l, .stepText fault) ∈ allFaults mode ls) :
    ∃ text, l.shape = .step text ∧ StepText.scan text = .error fault := by
  obtain ⟨mode', l', rest, -, hfault⟩ := faulty_of_mem_allFaults h
  cases hfault with
  | step hs hscan => exact ⟨_, hs, hscan⟩
  | other hp => exact absurd rfl ((kind_of_mem_lineFaults hp).2 fault)

theorem isFence_of_step {l : Line} {text : Text} (h : l.shape = .step text) :
    l.isFence = false := by
  rw [Line.isFence, beq_eq_false_iff_ne]
  intro hfence
  rw [Line.shape, hfence] at h
  cases h

/-- A block that is not closed in front of a line that is no fence takes that line as well. -/
theorem suffix_of_takeBlock {front rest left : List Line} {l : Line} {block : List Text}
    (hopen : Line.takeBlock front = none) (hl : l.isFence = false)
    (h : Line.takeBlock (front ++ l :: rest) = some (block, left)) : left <:+ rest := by
  induction front generalizing block with
  | nil =>
    rw [List.nil_append, Line.takeBlock, if_neg (by simp [hl])] at h
    obtain ⟨⟨block', left'⟩, hrest, heq⟩ := Option.map_eq_some_iff.1 h
    cases heq
    obtain ⟨inner, closing, rfl, -, -, -⟩ := takeBlock_eq_some hrest
    exact ⟨inner ++ [closing], by simp⟩
  | cons f front ih =>
    rw [Line.takeBlock] at hopen
    split at hopen
    case isTrue => cases hopen
    case isFalse hf =>
      rw [List.cons_append, Line.takeBlock, if_neg hf] at h
      obtain ⟨⟨block', left'⟩, hrest, heq⟩ := Option.map_eq_some_iff.1 h
      cases heq
      exact ih (Option.map_eq_none_iff.1 hopen) hrest

/-- The line `f` reports the same, and leaves the same lines in front of `l`, whatever stands at `l`
and behind it. -/
def Passes (mode : Mode) (f : Line) (front : List Line) : Prop :=
  ∃ found front', (∀ x ∈ found, x.1 ∈ f :: front) ∧ front' <:+ front ∧
    ∀ l rest, l.isFence = false → faults mode f (front ++ l :: rest) = found ∧
      left f (front ++ l :: rest) = front' ++ l :: rest

/-- The line `f` is a step with a block that is still open at `l`. -/
def Swallows (mode : Mode) (f : Line) (front : List Line) : Prop :=
  ∀ l rest, l.isFence = false → (∀ x ∈ faults mode f (front ++ l :: rest), x.1 ∈ f :: front) ∧
    left f (front ++ l :: rest) <:+ rest

theorem passes_or_swallows (mode : Mode) (f : Line) (front : List Line) :
    Passes mode f front ∨ Swallows mode f front := by
  have hown : ∀ ps : List Problem, ∀ x ∈ ps.map (Prod.mk f), x.1 ∈ f :: front := by
    intro ps x hx
    obtain ⟨p, -, rfl⟩ := List.mem_map.1 hx
    exact List.mem_cons_self
  have hother : (∀ text, f.shape ≠ .step text) → Passes mode f front := fun hne =>
    ⟨_, front, hown (lineFaults mode f f.shape), List.suffix_refl _, fun l rest _ => by
      unfold faults left
      split
      case h_1 text hs => exact absurd hs (hne text)
      case h_2 => exact ⟨rfl, rfl⟩⟩
  cases hs : f.shape with
  | step text =>
    cases hscan : StepText.scan text with
    | error fault =>
      refine .inl ⟨_, front, hown [.stepText fault], List.suffix_refl _, fun l rest _ => ?_⟩
      simp only [faults, left, stepFaults, hs, hscan]
      exact ⟨rfl, trivial⟩
    | ok scanned =>
      have hnil : ∀ x ∈ ([] : List (Line × Problem)), x.1 ∈ f :: front := fun _ hx => by cases hx
      cases front with
      | nil =>
        refine .inl ⟨[], [], hnil, List.suffix_refl _, fun l rest hl => ?_⟩
        simp [faults, left, stepFaults, hs, hscan, hl]
      | cons next after =>
        by_cases hf : next.isFence
        · cases hblock : Line.takeBlock after with
          | some closed =>
            obtain ⟨block, behind⟩ := closed
            have hsuffix : behind <:+ next :: after := by
              obtain ⟨inner, closing, rfl, -, -, -⟩ := takeBlock_eq_some hblock
              exact ⟨next :: (inner ++ [closing]), by simp⟩
            refine .inl ⟨[], behind, hnil, hsuffix, fun l rest _ => ?_⟩
            have happend := Line.takeBlock_append_of_some hblock (l :: rest)
            simp [faults, left, stepFaults, hs, hscan, hf, happend]
          | none =>
            refine .inr fun l rest hl => ?_
            simp only [faults, left, stepFaults, hs, hscan, List.cons_append, hf, true_and,
              if_true]
            cases hwhole : Line.takeBlock (after ++ l :: rest) with
            | none => exact ⟨by simp, List.nil_suffix⟩
            | some closed => exact ⟨by simp, suffix_of_takeBlock hblock hl hwhole⟩
        · refine .inl ⟨[], next :: after, hnil, List.suffix_refl _, fun l rest _ => ?_⟩
          simp [faults, left, stepFaults, hs, hscan, hf]
  | blank | heading | underline | tags | tableLine | dataTable | tearDown | prose =>
    exact .inl (hother fun text h => by rw [hs] at h; cases h)

/-- The lines in front of a line are read the same whatever stands there and behind it, or they end
in an open block that it is a line of. -/
theorem allFaults_front (front : List Line) (mode : Mode) :
    (∃ found mode', (∀ x ∈ found, x.1 ∈ front) ∧ ∀ l rest, l.isFence = false →
      allFaults mode (front ++ l :: rest) = found ++ allFaults mode' (l :: rest)) ∨
    ∀ l rest, l.isFence = false → ∀ x ∈ allFaults mode (front ++ l :: rest),
      x.1 ∈ front ∨ x.1 ∈ rest := by
  induction hn : front.length using Nat.strongRecOn generalizing front mode with
  | ind n ih =>
    cases front with
    | nil => exact .inl ⟨[], mode, nofun, fun l rest _ => rfl⟩
    | cons f front =>
      have hcons : ∀ ls, allFaults mode (f :: front ++ ls) = faults mode f (front ++ ls) ++
          allFaults (modeAfter mode f) (left f (front ++ ls)) := fun ls => by
        rw [List.cons_append, allFaults]
      rcases passes_or_swallows mode f front with ⟨found, front', hfound, hsuffix, hpass⟩ | hopen
      · have hsub : ∀ m ∈ front', m ∈ f :: front := fun m hm =>
          List.mem_cons_of_mem _ (hsuffix.subset hm)
        have hlt : front'.length < n := by
          rw [← hn]
          exact Nat.lt_succ_of_le hsuffix.length_le
        rcases ih _ hlt front' (modeAfter mode f) rfl with ⟨more, mode', hmore, hrest⟩ | hrest
        · refine .inl ⟨found ++ more, mode', ?_, fun l rest hl => ?_⟩
          · exact List.forall_mem_append.2 ⟨hfound, fun x hx => hsub _ (hmore x hx)⟩
          · obtain ⟨hfaults, hleft⟩ := hpass l rest hl
            rw [hcons, hfaults, hleft, hrest l rest hl, List.append_assoc]
        · refine .inr fun l rest hl x hx => ?_
          obtain ⟨hfaults, hleft⟩ := hpass l rest hl
          rw [hcons, hfaults, hleft] at hx
          rcases List.mem_append.1 hx with hx | hx
          · exact .inl (hfound x hx)
          · exact (hrest l rest hl x hx).imp_left (hsub _)
      · refine .inr fun l rest hl x hx => ?_
        obtain ⟨hfaults, hleft⟩ := hopen l rest hl
        rw [hcons] at hx
        rcases List.mem_append.1 hx with hx | hx
        · exact .inl (hfaults x hx)
        · exact .inr (hleft.subset (mem_of_mem_allFaults hx))

/-- What is reported about the lines in front of a step that cannot be read, at the step and behind
it, and what is reported with another line in its place. -/
theorem allFaults_of_fault {front rest : List Line} {l : Line} {mode : Mode}
    {fault : StepText.Fault} (hfront : l ∉ front) (hrest : l ∉ rest)
    (h : (l, .stepText fault) ∈ allFaults mode (front ++ l :: rest)) :
    ∃ found, (∀ x ∈ found, x.1 ∈ front) ∧
      allFaults mode (front ++ l :: rest) =
        found ++ (l, .stepText fault) :: allFaults .fresh rest ∧
      ∀ l' rest', l'.isFence = false → ∃ mode',
        allFaults mode (front ++ l' :: rest') = found ++ allFaults mode' (l' :: rest') := by
  obtain ⟨text, hs, hscan⟩ := step_of_mem_allFaults h
  have hl := isFence_of_step hs
  rcases allFaults_front front mode with ⟨found, mode', hfound, hreach⟩ | hopen
  · refine ⟨found, hfound, ?_, fun l' rest' hl' => ⟨mode', hreach l' rest' hl'⟩⟩
    rw [hreach l rest hl, allFaults]
    simp only [faults, left, modeAfter, stepFaults, hs, hscan, List.singleton_append]
  · rcases hopen l rest hl _ h with hin | hin
    · exact absurd hin hfront
    · exact absurd hin hrest

end Lexer

/-! ## Replacing the step -/

/-- The line `* x`. -/
def plainStep : Text := ['*', ' ', 'x']

/-- The codes of steps that cannot be read. -/
def stepCodes : List Code := [.e001, .e002, .e003, .e004, .e005]

/-- Nothing is hidden by a step above these lines that cannot be read: no block begins here, or the
block is closed and its lines, when they are read on their own, add nothing to what is reported. -/
def SilentBelow : List Line → Prop
  | [] => True
  | next :: after => next.isFence → ∃ block left, Line.takeBlock after = some (block, left) ∧
      Lexer.lineMarks after = Lexer.lineMarks left

theorem exists_fault_of_stepCode {p : Problem} (h : p.code ∈ stepCodes) :
    ∃ fault, p = .stepText fault := by
  cases p with
  | stepText fault => exact ⟨fault, rfl⟩
  | header fault => cases fault <;> simp [Problem.code, stepCodes] at h
  | reference fault => cases fault <;> simp [Problem.code, stepCodes] at h
  | _ => simp [Problem.code, stepCodes] at h

namespace Lexer

section
variable {mode : Mode} {front rest : List Line} {l next : Line}

/-- A fence that belongs to no step is prose. -/
theorem lineMarks_fence (hf : next.isFence) (after : List Line) :
    lineMarks (next :: after) = lineMarks after := by
  have hshape : next.shape = .prose := by
    rw [Line.shape, beq_iff_eq.1 hf]
    decide
  rw [lineMarks_eq, lineMarks_eq, allFaults]
  simp only [faults, lineFaults, modeAfter, left, hshape, List.map_nil, List.nil_append,
    reduceCtorEq, if_false]

/-- What is reported about lines bears the numbers of these lines. -/
theorem ne_of_mem_lineMarks {no : Nat} {mark : Option Nat × Option Code}
    (hno : ∀ m ∈ rest, m.no ≠ no) (h : mark ∈ lineMarks rest) : mark.1 ≠ some no := by
  rw [lineMarks_eq] at h
  obtain ⟨⟨m, p⟩, hfault, rfl⟩ := List.mem_map.1 h
  exact fun heq => hno m (mem_of_mem_allFaults hfault) (Option.some.inj heq)

/-- **A step that can be read takes the block below it**, and nothing else changes what is reported
about the lines below. -/
theorem faultMarks_plainStep (no start : Nat) (hno : (rest.map Line.no).Nodup) :
    faultMarks (allFaults mode (⟨no, start, plainStep⟩ :: rest)) = lineMarks rest ↔
      SilentBelow rest := by
  have hshape : Line.shape ⟨no, start, plainStep⟩ = .step ['x'] := by
    show Shape.ofTrimmed plainStep.trim = _
    decide
  have hscan : (StepText.scan ['x']).isOk := by decide +kernel
  cases hs : StepText.scan ['x'] with
  | error fault => rw [hs] at hscan; cases hscan
  | ok scanned =>
    rw [allFaults]
    simp only [faults, stepFaults, modeAfter, left, hshape, hs]
    cases rest with
    | nil => simp [SilentBelow, lineMarks_eq]
    | cons next after =>
      by_cases hf : next.isFence
      · have hnext : ∀ m ∈ after, m.no ≠ next.no := by
          simpa [List.mem_map, eq_comm] using (List.nodup_cons.1 hno).1
        rw [lineMarks_fence hf]
        simp only [SilentBelow, hf, true_and, if_true, forall_const]
        cases hblock : Line.takeBlock after with
        | some closed =>
          obtain ⟨block, behind⟩ := closed
          simp [← lineMarks_eq, eq_comm]
        | none =>
          -- the open block would have to be reported on the line of its fence
          have hopen : lineMarks after ≠ [(some next.no, some .e008)] := fun heq =>
            ne_of_mem_lineMarks hnext (heq ▸ List.mem_singleton_self _) rfl
          simp [faultMarks, allFaults, Problem.code, hopen.symm]
      · simp [SilentBelow, hf, ← lineMarks_eq]

end

end Lexer

/-- The lines of a source have numbers of their own. -/
theorem Line.nodup_no (source : Text) : ((ofSource source).map Line.no).Nodup := by
  rw [map_no_ofSource]
  exact List.nodup_range'

namespace Lexer

/-- The code of a step on a line comes from the fault of a step on that line. -/
theorem fault_of_mark {source : Text} {l : Line} {c : Code} (hl : l ∈ Line.ofSource source)
    (hc : c ∈ stepCodes) (hmark : (some l.no, some c) ∈ marks (tokenize source)) :
    ∃ fault, c = (Problem.stepText fault).code ∧
      (l, .stepText fault) ∈ allFaults .fresh (Line.ofSource source) := by
  rw [marks_tokenize, lineMarks_eq] at hmark
  obtain ⟨⟨m, p⟩, hfault, heq⟩ := List.mem_map.1 hmark
  simp only [Prod.mk.injEq, Option.some.injEq] at heq
  obtain ⟨hno, rfl⟩ := heq
  obtain ⟨fault, rfl⟩ := exists_fault_of_stepCode hc
  obtain rfl : m = l :=
    List.inj_on_of_nodup_map (Line.nodup_no source) (mem_of_mem_allFaults hfault) hl hno
  exact ⟨fault, rfl, hfault⟩

/-- The marks of lines with a step that cannot be read: those of the lines in front of it, its own,
and those of the lines behind it. With `* x` in its place the first ones stay. -/
theorem marks_around {front rest : List Line} {l : Line} {mode : Mode} {fault : StepText.Fault}
    (hnodup : ((front ++ l :: rest).map Line.no).Nodup)
    (h : (l, .stepText fault) ∈ allFaults mode (front ++ l :: rest)) :
    ∃ found, (∀ mark ∈ found, mark.1 ≠ some l.no) ∧ (∀ mark ∈ lineMarks rest, mark.1 ≠ some l.no) ∧
      faultMarks (allFaults mode (front ++ l :: rest)) =
        found ++ (some l.no, some (Problem.stepText fault).code) :: lineMarks rest ∧
      ∀ rest', rest'.map (Line.stretched fun _ => 0) = rest.map (Line.stretched fun _ => 0) →
        (faultMarks (allFaults mode (front ++ { l with text := plainStep } :: rest')) =
          found ++ lineMarks rest ↔ SilentBelow rest) := by
  rw [List.map_append, List.map_cons, List.nodup_append, List.nodup_cons] at hnodup
  obtain ⟨-, ⟨hbehind, hnodup⟩, hapart⟩ := hnodup
  have hfront : ∀ u ∈ front, u.no ≠ l.no := fun u hu =>
    hapart _ (List.mem_map_of_mem hu) _ List.mem_cons_self
  have hbehind : ∀ u ∈ rest, u.no ≠ l.no := fun u hu heq =>
    hbehind (heq ▸ List.mem_map_of_mem hu)
  obtain ⟨found, hfound, hall, hreach⟩ := allFaults_of_fault
    (fun hin => hfront l hin rfl) (fun hin => hbehind l hin rfl) h
  refine ⟨faultMarks found, ?_, fun mark => ne_of_mem_lineMarks hbehind, ?_, fun rest' hrest => ?_⟩
  · intro mark hmark heq
    obtain ⟨⟨u, p⟩, hu, rfl⟩ := List.mem_map.1 hmark
    exact hfront u (hfound _ hu) (Option.some.inj heq)
  · rw [hall, faultMarks_append, lineMarks_eq]
    rfl
  · have hcongr : (({ l with text := plainStep } : Line) :: rest').map (Line.stretched fun _ => 0) =
        (({ l with text := plainStep } : Line) :: rest).map (Line.stretched fun _ => 0) := by
      rw [List.map_cons, List.map_cons, hrest]
    obtain ⟨mode', hplain⟩ := hreach { l with text := plainStep } rest' rfl
    rw [hplain, faultMarks_append, faultMarks_congr hcongr, List.append_cancel_left_eq]
    exact faultMarks_plainStep l.no l.start hnodup

end Lexer

/-- **Errors in steps hide nothing but blocks.** When a step cannot be read, that is all that is
reported on its line, and with `* x` in its place the rest is reported as before exactly if no block
below it is hidden. -/
theorem errors_alone_iff {source before terminator behind : Text} {l : Line} {c : Code}
    (hl : l ∈ Line.ofSource source) (hs : l.Splits source before terminator behind)
    (hc : c ∈ stepCodes) (hmark : (some l.no, some c) ∈ marks (tokenize source)) :
    (marks (tokenize source)).filter (·.1 = some l.no) = [(some l.no, some c)] ∧
      (marks (tokenize (before ++ plainStep ++ terminator ++ behind)) =
          (marks (tokenize source)).filter (·.1 ≠ some l.no) ↔
        SilentBelow ((Line.ofSource source).drop l.no)) := by
  obtain ⟨fault, rfl, hfault⟩ := Lexer.fault_of_mark hl hc hmark
  have hne : l.text ≠ [] := by
    obtain ⟨text, hshape, -⟩ := Lexer.step_of_mem_allFaults hfault
    intro hnil
    rw [Line.shape, hnil] at hshape
    cases hshape
  obtain ⟨front, rest, rest', hlines, hlines', hrest⟩ :=
    hs.ofSource_replaced hne plainStep (by decide) (by decide) (by decide)
  have hdrop : (Line.ofSource source).drop l.no = rest := by
    rw [Line.no_eq hlines.symm, hlines, ← List.drop_drop, List.drop_left]
    rfl
  have hnodup := Line.nodup_no source
  rw [hlines] at hfault hnodup
  obtain ⟨found, hbefore, hafter, hmarks, hplain⟩ := Lexer.marks_around hnodup hfault
  rw [← hlines, ← Lexer.lineMarks_eq, ← Lexer.marks_tokenize] at hmarks
  have hat : (marks (tokenize source)).filter (·.1 = some l.no) =
      [(some l.no, some (Problem.stepText fault).code)] := by
    rw [hmarks, List.filter_append, List.filter_eq_nil_iff.2 (by simpa using hbefore),
      List.filter_cons_of_pos (by simp), List.filter_eq_nil_iff.2 (by simpa using hafter)]
    rfl
  have hothers : (marks (tokenize source)).filter (·.1 ≠ some l.no) =
      found ++ Lexer.lineMarks rest := by
    rw [hmarks, List.filter_append, List.filter_eq_self.2 (by simpa using hbefore),
      List.filter_cons_of_neg (by simp), List.filter_eq_self.2 (by simpa using hafter)]
  refine ⟨hat, ?_⟩
  rw [hothers, hdrop, Lexer.marks_tokenize, Lexer.lineMarks_eq, hlines']
  exact hplain rest' hrest

/-- A step that cannot be read, above other lines. -/
def faultyStep : Text := "* a {b}".toList

/-- It is the first line of the source. -/
theorem Line.splits_faultyStep (below : Text) :
    Splits ⟨1, 0, faultyStep⟩ (faultyStep ++ '\n' :: below) [] ['\n'] below :=
  ⟨by simp, rfl, rfl, .inl rfl, by decide, ['\n'], .inl rfl, .inr ⟨rfl, by decide⟩⟩

/-- A block of one line and a table with a repeated name. -/
def blockAndTable : Text := "\"\"\"\nfoo\n\"\"\"\n|x|x|".toList

/-- Below a step that cannot be read the line of the block is read as prose, which changes nothing:
the table is reported with and without the error. -/
theorem errors_alone_iff_silent_block :
    marks (tokenize (faultyStep ++ '\n' :: blockAndTable)) =
      [(some 1, some .e003), (some 5, some .e007)] ∧
    SilentBelow ((Line.ofSource (faultyStep ++ '\n' :: blockAndTable)).drop 1) ∧
    marks (tokenize (plainStep ++ '\n' :: blockAndTable)) = [(some 5, some .e007)] := by
  have hmarks : marks (tokenize (faultyStep ++ '\n' :: blockAndTable)) =
      [(some 1, some .e003), (some 5, some .e007)] := by decide +kernel
  have hsilent : SilentBelow ((Line.ofSource (faultyStep ++ '\n' :: blockAndTable)).drop 1) := by
    intro _
    exact ⟨_, _, rfl, by decide +kernel⟩
  obtain ⟨-, hiff⟩ := errors_alone_iff (c := .e003) (by decide)
    (Line.splits_faultyStep blockAndTable) (by decide) (by rw [hmarks]; decide)
  have hplain := hiff.2 hsilent
  rw [hmarks] at hplain
  exact ⟨hmarks, hsilent, hplain⟩

/-- A closed block with a step in it that cannot be read. -/
def stepInBlock : Text := "\"\"\"\n* c {d}\n\"\"\"\n".toList

/-- A block that is not closed. -/
def openBlockBelow : Text := "\"\"\"\nfoo".toList

/-- Below a step that cannot be read a line of a block is reported that is not wrong, or an open
block is not reported. -/
theorem not_errors_alone_above_block :
    (marks (tokenize (faultyStep ++ '\n' :: stepInBlock)) =
        [(some 1, some .e003), (some 3, some .e003)] ∧
      marks (tokenize (plainStep ++ '\n' :: stepInBlock)) = []) ∧
    (marks (tokenize (faultyStep ++ '\n' :: openBlockBelow)) = [(some 1, some .e003)] ∧
      marks (tokenize (plainStep ++ '\n' :: openBlockBelow)) = [(some 2, some .e008)]) ∧
    ¬ ∀ (source before terminator behind : Text) (l : Line) (c : Code),
      l ∈ Line.ofSource source → l.Splits source before terminator behind → c ∈ stepCodes →
      (some l.no, some c) ∈ marks (tokenize source) →
      marks (tokenize (before ++ plainStep ++ terminator ++ behind)) =
        (marks (tokenize source)).filter (·.1 ≠ some l.no) := by
  have hclosed : marks (tokenize (faultyStep ++ '\n' :: stepInBlock)) =
        [(some 1, some .e003), (some 3, some .e003)] ∧
      marks (tokenize (plainStep ++ '\n' :: stepInBlock)) = [] := by
    constructor <;> decide +kernel
  refine ⟨hclosed, by constructor <;> decide +kernel, fun h => ?_⟩
  have hplain : marks (tokenize (plainStep ++ '\n' :: stepInBlock)) =
      (marks (tokenize (faultyStep ++ '\n' :: stepInBlock))).filter (·.1 ≠ some 1) :=
    h _ _ _ _ _ .e003 (by decide) (Line.splits_faultyStep stepInBlock) (by decide)
      (by rw [hclosed.1]; decide)
  rw [hclosed.1, hclosed.2] at hplain
  exact absurd hplain (by decide)

end ScenarioBook
