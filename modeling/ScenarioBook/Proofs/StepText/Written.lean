import ScenarioBook.Layout
import ScenarioBook.Proofs.StepText.Filled
import ScenarioBook.Proofs.StepText.Grammar

/-!
# Written steps are read back

The text of a step is written from its value and its arguments: braces get their backslash back,
and each placeholder gives way to the next argument (`written`, `flatMap_fragment`). A value is
`whole` if no backslash stands alone at its end; all others are read back, segment by segment
(`readsAs_written`), so scanning the written text gives the value and the arguments again
(`scan_written`). Literal arguments can hold any text (`readQuoted_escapeLiteral`); a reference is
read back if it holds nothing that ends or escapes it (`readAngled_append`).
-/

set_option autoImplicit false

namespace ScenarioBook

/-- The argument as a step text holds it. Tables and blocks stand below the text. -/
def Arg.raw? : Arg → Option RawArg
  | .literal v => some ⟨.literal, v⟩
  | .dynamic n => some ⟨.dynamic, n⟩
  | .special n _ | .specialTable n _ => some ⟨.special, n⟩
  | .table _ | .block _ => none

/-- The name of the argument is read back from between angle brackets. -/
def Arg.Readable : Arg → Prop
  | .literal _ => True
  | .dynamic n => '>' ∉ n ∧ '\\' ∉ n ∧ ':' ∉ n
  | .special n _ | .specialTable n _ => '>' ∉ n ∧ '\\' ∉ n ∧ ':' ∈ n
  | .table _ | .block _ => False

namespace StepText

/-- The value with its braces escaped and its placeholders replaced by the arguments. -/
def written : Text → List Arg → Text
  | [], _ => []
  | '{' :: '}' :: r, arg :: args => Step.inlineText arg ++ written r args
  | '{' :: '}' :: r, [] => ['\\', '{', '\\', '}'] ++ written r []
  | c :: r, args => (if isReserved c then ['\\', c] else [c]) ++ written r args

/-- Every backslash of the value escapes the character behind it, and nothing in the value opens an
argument. -/
def whole : Text → Bool
  | [] => true
  | ['\\'] => false
  | '\\' :: c :: r => !isReserved c && whole r
  | '{' :: '}' :: r => whole r
  | c :: r => c != '"' && c != '<' && whole r

/-! ## Arguments -/

/-- **Any text between quotes is read back.** -/
theorem readQuoted_escapeLiteral (v rest : Text) :
    readQuoted (escapeLiteral v ++ '"' :: rest) = some (v, rest) := by
  induction v with
  | nil => simp [escapeLiteral, readQuoted]
  | cons c v ih =>
    simp only [escapeLiteral]
    by_cases hq : c = '"'
    · simp [hq, readQuoted, ih, unescape]
    by_cases hb : c = '\\'
    · simp [hb, readQuoted, ih, unescape]
    by_cases hn : c = '\n'
    · simp [hn, readQuoted, ih, unescape]
    by_cases ht : c = '\t'
    · simp [ht, readQuoted, ih, unescape]
    rw [if_neg hq, if_neg hb, if_neg hn, if_neg ht, List.append_assoc, List.singleton_append,
      readQuoted_cons hb hq, ih]
    rfl

/-- **A name without brackets and backslashes is read back**; a colon makes it special. -/
theorem readAngled_append {n : Text} (hg : '>' ∉ n) (hb : '\\' ∉ n) (rest : Text) :
    readAngled (n ++ '>' :: rest) = some (n.contains ':', n, rest) := by
  induction n with
  | nil => simp [readAngled]
  | cons c n ih =>
    simp only [List.mem_cons, not_or] at hg hb
    rw [List.cons_append, readAngled_cons (Ne.symm hb.1) (Ne.symm hg.1), ih hg.2 hb.2]
    simp [eq_comm, Bool.beq_eq_decide_eq]

/-- An argument written in its place is read as one segment. -/
theorem segments_inlineText {arg : Arg} (h : arg.Readable) (rest : Text) :
    ∃ raw, arg.raw? = some raw ∧
      segments (Step.inlineText arg ++ rest) = (segments rest).map (.arg raw :: ·) := by
  cases arg with
  | literal v =>
    refine ⟨_, rfl, ?_⟩
    rw [Step.inlineText, List.cons_append, List.cons_append, List.append_assoc]
    exact segments_quote (readQuoted_escapeLiteral v rest)
  | dynamic n =>
    obtain ⟨hg, hb, hc⟩ := h
    refine ⟨_, rfl, ?_⟩
    rw [Step.inlineText, List.cons_append, List.cons_append, List.append_assoc]
    rw [List.singleton_append, segments_angle (readAngled_append hg hb rest)]
    simp [hc]
  | special n c | specialTable n c =>
    obtain ⟨hg, hb, hc⟩ := h
    refine ⟨_, rfl, ?_⟩
    rw [Step.inlineText, List.cons_append, List.cons_append, List.append_assoc]
    rw [List.singleton_append, segments_angle (readAngled_append hg hb rest)]
    simp [hc]
  | table | block => cases h

/-! ## The whole text -/

theorem written_cons {c : Char} {r : Text} (h : ∀ r', c = '{' → r = '}' :: r' → False)
    (args : List Arg) :
    written (c :: r) args = (if isReserved c then ['\\', c] else [c]) ++ written r args := by
  rw [written.eq_4 _ _ _ (fun r' _ _ _ => h r') fun r' _ => h r']

theorem isReserved_backslash : isReserved '\\' = false := rfl

/-- The text is read as this value, with these arguments. -/
def ReadsAs (t v : Text) (args : List Arg) : Prop :=
  ∃ segs, segments t = .ok segs ∧ segs.flatMap Segment.canonical = v ∧
    segs.filterMap Segment.arg? = args.filterMap Arg.raw?

theorem ReadsAs.literal {t t' v p : Text} {args : List Arg} (h : ReadsAs t v args)
    (ht : segments t' = (segments t).map (.literal p :: ·)) : ReadsAs t' (p ++ v) args := by
  obtain ⟨segs, hsegs, hcanon, hargs⟩ := h
  refine ⟨.literal p :: segs, by rw [ht, hsegs]; rfl, ?_, hargs⟩
  rw [List.flatMap_cons, hcanon]
  rfl

theorem ReadsAs.arg {t v : Text} {args : List Arg} {arg : Arg} (h : ReadsAs t v args)
    (harg : arg.Readable) :
    ReadsAs (Step.inlineText arg ++ t) (placeholder ++ v) (arg :: args) := by
  obtain ⟨segs, hsegs, hcanon, hargs⟩ := h
  obtain ⟨raw, hraw, hseg⟩ := segments_inlineText harg t
  refine ⟨.arg raw :: segs, by rw [hseg, hsegs]; rfl, ?_, ?_⟩
  · rw [List.flatMap_cons, hcanon]
    rfl
  · rw [List.filterMap_cons_some hraw, ← hargs]
    rfl

/-- **A whole value is read back**, with each argument in the place of a placeholder. -/
theorem readsAs_written {v : Text} {args : List Arg} (hv : whole v)
    (ha : ∀ arg ∈ args, arg.Readable) (hlen : args.length ≤ placeholderCount v) :
    ReadsAs (written v args) v args := by
  fun_induction whole v generalizing args with
  | case1 =>
    obtain rfl : args = [] := List.length_eq_zero_iff.1 (Nat.le_zero.1 hlen)
    exact ⟨[], by rw [written, segments], rfl, rfl⟩
  | case2 => cases hv
  | case3 c r ih =>
    -- a backslash that escapes nothing is a character like any other
    simp only [Bool.and_eq_true, Bool.not_eq_true'] at hv
    have hne : c ≠ '{' := by rintro rfl; cases hv.1
    have hcount : placeholderCount ('\\' :: c :: r) = placeholderCount r := by
      rw [placeholderCount_cons (fun h => absurd h (by decide)),
        placeholderCount_cons (fun h => absurd h hne)]
    refine (ih hv.2 ha (hcount ▸ hlen)).literal (p := ['\\', c]) ?_
    rw [written_cons (fun _ h => absurd h (by decide)), written_cons (fun _ h => absurd h hne),
      isReserved_backslash, hv.1]
    simp only [Bool.false_eq_true, if_false, List.cons_append, List.nil_append]
    rw [segments_escape, hv.1]
    rfl
  | case4 r ih =>
    have hcount := placeholderCount_placeholder_append r
    cases args with
    | nil =>
      have hclose := (ih hv ha (Nat.zero_le _)).literal (segments_escape (c := '}') _)
      have hopen := hclose.literal (segments_escape (c := '{') _)
      rw [written]
      exact hopen
    | cons arg args =>
      obtain ⟨harg, ha⟩ := List.forall_mem_cons.1 ha
      have hlen : args.length ≤ placeholderCount r := by
        simp only [placeholder, List.cons_append, List.nil_append, List.length_cons] at hcount hlen
        omega
      rw [written]
      exact (ih hv ha hlen).arg harg
  | case5 c r hlast hesc hpair ih =>
    simp only [Bool.and_eq_true, bne_iff_ne, ne_eq] at hv
    obtain ⟨⟨hq, hang⟩, hr⟩ := hv
    have hb : c ≠ '\\' := by
      rintro rfl
      cases r with
      | nil => exact hlast rfl rfl
      | cons c' r' => exact hesc c' r' rfl rfl
    refine (ih hr ha (placeholderCount_of_not_pair hpair ▸ hlen)).literal (p := [c]) ?_
    rw [written_cons hpair]
    cases hres : isReserved c with
    | true =>
      simp only [if_true, List.cons_append, List.nil_append]
      rw [segments_escape, hres]
      rfl
    | false =>
      simp only [Bool.false_eq_true, if_false, List.cons_append, List.nil_append]
      exact segments_cons hb hq hang hres _

/-! ## The written line of a step -/

/-- A written text is written letter by letter. -/
theorem written_eq_fill (v : Text) (args : List Arg) :
    written v args = (fill v args).flatMap
      (Sum.elim (fun c => if isReserved c then ['\\', c] else [c]) Step.inlineText) := by
  fun_induction written v args with
  | case1 => rfl
  | case2 r arg args ih => rw [ih, fill, List.flatMap_cons, Sum.elim_inr]
  | case3 r ih =>
    rw [ih, fill_nil, fill_nil]
    rfl
  | case4 c r args h1 h2 ih =>
    have hpair : ∀ r', c = '{' → r = '}' :: r' → False := by
      intro r' hc hr
      cases args with
      | nil => exact h2 r' rfl hc hr
      | cons a as => exact h1 r' a as rfl hc hr
    rw [ih, fill_cons hpair, List.flatMap_cons, Sum.elim_inl]

/-- The fragments of a value and its arguments, written one after the other. -/
theorem flatMap_fragment (v : Text) (args : List Arg) :
    (Step.weave (splitPlaceholders v) args).flatMap Layout.fragment = written v args := by
  rw [flatMap_weave rfl (fun c t => by simp [Layout.fragment, escapeBraces]), written_eq_fill]
  congr 1
  funext l
  cases l with
  | inl c => simp [Layout.fragment, escapeBraces]
  | inr arg => rfl

/-- The argument below a step leaves a blank at the end of the line. -/
theorem written_trailing {v : Text} {args : List Arg} (h : args.length = placeholderCount v)
    (arg : Arg) :
    written (v ++ ' ' :: placeholder) (args ++ [arg]) =
      written v args ++ ' ' :: Step.inlineText arg := by
  fun_induction written v args with
  | case1 args =>
    obtain rfl : args = [] := List.length_eq_zero_iff.1 h
    simp [written, placeholder, isReserved]
  | case2 r a args ih =>
    have hcount := placeholderCount_placeholder_append r
    simp only [placeholder, List.cons_append, List.nil_append, List.length_cons] at hcount h
    have ih := ih (by omega)
    simp only [List.cons_append, written, List.append_assoc, ih]
  | case3 r ih =>
    have hcount := placeholderCount_placeholder_append r
    simp only [placeholder, List.cons_append, List.nil_append, List.length_nil] at hcount h
    omega
  | case4 c r args h1 h2 ih =>
    have hpair : ∀ r', c = '{' → r = '}' :: r' → False := by
      intro r' hc hr
      cases args with
      | nil => exact h2 r' rfl hc hr
      | cons a as => exact h1 r' a as rfl hc hr
    have hcount := placeholderCount_of_not_pair hpair
    have hpair' : ∀ r', c = '{' → r ++ ' ' :: placeholder = '}' :: r' → False := by
      intro r' hc hr
      cases r with
      | nil => cases hr
      | cons d r =>
        rw [List.cons_append, List.cons.injEq] at hr
        exact hpair r hc (by rw [hr.1])
    rw [List.cons_append, written_cons hpair', ih (h.trans hcount), List.append_assoc]

theorem placeholderCount_below (v : Text) (below : List Arg) :
    placeholderCount (v ++ below.flatMap fun _ => ' ' :: placeholder) =
      placeholderCount v + below.length := by
  induction below generalizing v with
  | nil => simp
  | cons arg below ih =>
    have hone : placeholderCount (v ++ ' ' :: placeholder) = placeholderCount v + 1 :=
      placeholderCount_append_cons (by decide) (by decide)
    rw [List.flatMap_cons, ← List.append_assoc, ih, hone, List.length_cons]
    omega

/-- What stands below a step leaves blanks at the end of its line. -/
theorem written_below {v : Text} {args below : List Arg}
    (h : below ≠ [] → args.length = placeholderCount v)
    (hb : ∀ arg ∈ below, Step.inlineText arg = []) :
    written (v ++ below.flatMap fun _ => ' ' :: placeholder) (args ++ below) =
      written v args ++ List.replicate below.length ' ' := by
  induction below generalizing v args with
  | nil => simp
  | cons arg below ih =>
    obtain ⟨harg, hb⟩ := List.forall_mem_cons.1 hb
    have hexact := h (List.cons_ne_nil _ _)
    have hnext : (args ++ [arg]).length = placeholderCount (v ++ ' ' :: placeholder) := by
      rw [placeholderCount_append_cons (by decide) (by decide), List.length_append, hexact]
      rfl
    have ih := ih (fun _ => hnext) hb
    rw [written_trailing hexact, harg] at ih
    simpa [List.replicate_succ] using ih

/-! ## Scanning what was written -/

theorem tight_inlineText {arg : Arg} (h : arg.Readable) :
    Step.inlineText arg ≠ [] ∧ Text.Tight (Step.inlineText arg) := by
  cases arg with
  | literal v =>
    exact ⟨List.cons_ne_nil _ _, Text.tight_bracket (by decide) (by decide) (escapeLiteral v)⟩
  | dynamic n | special n _ | specialTable n _ =>
    exact ⟨List.cons_ne_nil _ _, Text.tight_bracket (by decide) (by decide) n⟩
  | table | block => cases h

theorem eq_nil_of_written {v : Text} {args : List Arg} (ha : ∀ arg ∈ args, arg.Readable)
    (h : written v args = []) : v = [] := by
  fun_cases written v args with
  | case1 => rfl
  | case2 r arg args =>
    rw [written, List.append_eq_nil_iff] at h
    exact absurd h.1 (tight_inlineText (List.forall_mem_cons.1 ha).1).1
  | case3 r => cases h
  | case4 b r args h1 h2 =>
    rw [written.eq_4 _ _ _ h1 h2] at h
    split at h <;> cases h

theorem trim_written {v : Text} {args : List Arg} (hv : v.Tight)
    (ha : ∀ arg ∈ args, arg.Readable) : (written v args).trim = written v args := by
  rw [Text.trim_eq_self_iff, written_eq_fill]
  refine tight_flatMap_fill hv (fun c hc => ?_) fun arg harg => tight_inlineText (ha arg harg)
  rw [Sum.elim_inl]
  split
  case isTrue => exact ⟨List.cons_ne_nil _ _, Text.tight_bracket (by decide) hc []⟩
  case isFalse => exact ⟨List.cons_ne_nil _ _, Text.tight_singleton hc⟩

theorem literalRuns_cons (segs : List Segment) :
    ∃ run runs, literalRuns segs = run :: runs ∧ run <+: segs.flatMap Segment.canonical ∧
      ∀ r ∈ runs, r <:+: segs.flatMap Segment.canonical := by
  induction segs with
  | nil => exact ⟨[], [], rfl, List.nil_prefix, fun _ h => by cases h⟩
  | cons seg segs ih =>
    obtain ⟨run, runs, hruns, hfirst, hothers⟩ := ih
    have hsuf : segs.flatMap Segment.canonical <:+ (seg :: segs).flatMap Segment.canonical :=
      ⟨seg.canonical, List.flatMap_cons.symm⟩
    cases seg with
    | arg a =>
      refine ⟨[], run :: runs, by rw [literalRuns, hruns], List.nil_prefix, ?_⟩
      exact List.forall_mem_cons.2 ⟨hfirst.isInfix.trans hsuf.isInfix,
        fun r hr => (hothers r hr).trans hsuf.isInfix⟩
    | literal t =>
      refine ⟨t ++ run, runs, by rw [literalRuns, hruns], ?_,
        fun r hr => (hothers r hr).trans hsuf.isInfix⟩
      rw [List.flatMap_cons, Segment.canonical]
      exact (List.prefix_append_right_inj t).2 hfirst

/-- A run of literal text stands in the canonical text. -/
theorem literalRuns_isInfix {segs : List Segment} {run : Text} (h : run ∈ literalRuns segs) :
    run <:+: segs.flatMap Segment.canonical := by
  obtain ⟨first, others, hruns, hfirst, hothers⟩ := literalRuns_cons segs
  rw [hruns] at h
  rcases List.mem_cons.1 h with rfl | h
  · exact hfirst.isInfix
  · exact hothers run h

/-- **What was written is read back.** -/
theorem scan_written {v : Text} {args : List Arg} (hv : whole v) (ht : v.Tight) (hne : v ≠ [])
    (htyped : ∀ name ∈ typedPlaceholders, ¬ name <:+: v)
    (ha : ∀ arg ∈ args, arg.Readable) (hlen : args.length ≤ placeholderCount v) :
    scan (written v args) = .ok ⟨v, args.filterMap Arg.raw?⟩ := by
  obtain ⟨segs, hsegs, hcanon, hargs⟩ := readsAs_written hv ha hlen
  have hrefused : hasTypedPlaceholder segs = false := by
    rw [hasTypedPlaceholder, List.any_eq_false]
    intro run hrun hany
    obtain ⟨name, hname, hpart⟩ := List.any_eq_true.1 hany
    have hin := (Text.hasPart_iff.1 hpart).trans (hcanon ▸ literalRuns_isInfix hrun)
    exact htyped name hname hin
  have htrim := trim_written ht ha
  have hwritten : (written v args).trim ≠ [] := by
    rw [htrim]
    exact mt (eq_nil_of_written ha) hne
  rw [scan_of_ne_nil hwritten, htrim, hsegs, Except.bind, assemble_eq, hrefused, hcanon, hargs,
    Text.trim_eq_self_iff.2 ht]
  rfl

end StepText

end ScenarioBook
