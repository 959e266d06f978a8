import ScenarioBook.Proofs.Text.Parts
import ScenarioBook.StepText

/-!
# Typed placeholders are found again

A step text is read in two passes, with typed placeholders between them. Here the two are one: the
second pass finds the placeholder of each argument, with its kind, and no other unless the literal
text holds one by itself (`assemble_eq`). The reason is that the opening brace stands in a typed
placeholder at its start only. So a match does not reach from literal text into an argument, where
the next brace opens, and cutting the text there cuts no match (`extractKinds_append`). Blanks stand
in no typed placeholder, so trimming between the passes is trimming at the end
(`extractKinds_trim`).
-/

set_option autoImplicit false

namespace ScenarioBook.StepText

/-! ## Literal text -/

/-- The literal text between the arguments: one run before, between and after them. -/
def literalRuns : List Segment → List Text
  | [] => [[]]
  | .arg _ :: segs => [] :: literalRuns segs
  | .literal t :: segs =>
    match literalRuns segs with
    | [] => [t]
    | run :: runs => (t ++ run) :: runs

/-- The names that must not stand in literal text. -/
def typedPlaceholders : List Text := [ParamKind.literal, .dynamic, .special].map typedPlaceholder

/-- A run of literal text contains one of the refused names. -/
def hasTypedPlaceholder (segs : List Segment) : Bool :=
  (literalRuns segs).any fun run => typedPlaceholders.any run.hasPart

def Segment.canonical : Segment → Text
  | .literal t => t
  | .arg _ => placeholder

theorem mem_kinds (kind : ParamKind) : kind ∈ [ParamKind.literal, .dynamic, .special] := by
  cases kind <;> decide

theorem mem_typedPlaceholders {name : Text} :
    name ∈ typedPlaceholders ↔ ∃ kind, typedPlaceholder kind = name := by
  constructor
  · intro h
    obtain ⟨kind, -, hkind⟩ := List.mem_map.1 h
    exact ⟨kind, hkind⟩
  · rintro ⟨kind, rfl⟩
    exact List.mem_map_of_mem (mem_kinds kind)

theorem hasTypedPlaceholder_iff {segs : List Segment} :
    hasTypedPlaceholder segs ↔
      ∃ run ∈ literalRuns segs, ∃ kind, typedPlaceholder kind <:+: run := by
  simp only [hasTypedPlaceholder, List.any_eq_true, mem_typedPlaceholders, Text.hasPart_iff]
  constructor
  · rintro ⟨run, hrun, -, ⟨kind, rfl⟩, hpart⟩
    exact ⟨run, hrun, kind, hpart⟩
  · rintro ⟨run, hrun, kind, hpart⟩
    exact ⟨run, hrun, _, ⟨kind, rfl⟩, hpart⟩

theorem literalRuns_literal_literal (w t : Text) (segs : List Segment) :
    literalRuns (.literal w :: .literal t :: segs) = literalRuns (.literal (w ++ t) :: segs) := by
  simp only [literalRuns]
  cases literalRuns segs <;> simp

theorem literalRuns_literal_arg (w : Text) (a : RawArg) (segs : List Segment) :
    literalRuns (.literal w :: .arg a :: segs) = w :: literalRuns segs := by
  simp [literalRuns]

theorem literalRuns_literal_nil (segs : List Segment) :
    literalRuns (.literal [] :: segs) = literalRuns segs := by
  have hne : literalRuns segs ≠ [] := by
    fun_induction literalRuns segs <;> simp
  cases hruns : literalRuns segs with
  | nil => exact absurd hruns hne
  | cons run runs => simp [literalRuns, hruns]

/-- If the marks in a text are counted, and what is written for an argument counts as one between
the text before it and behind it, then there is a mark for each argument, and there are more exactly
if the literal text holds some. -/
theorem count_segments (count : Text → Nat) {write : Segment → Text}
    (hliteral : ∀ t, write (.literal t) = t)
    (harg : ∀ w a r, count (w ++ (write (.arg a) ++ r)) = count w + (count r + 1)) (w : Text)
    (segs : List Segment) :
    (segs.filterMap Segment.arg?).length ≤ count (w ++ segs.flatMap write) ∧
      (count (w ++ segs.flatMap write) = (segs.filterMap Segment.arg?).length ↔
        ∀ run ∈ literalRuns (.literal w :: segs), count run = 0) := by
  induction segs generalizing w with
  | nil => simp [literalRuns]
  | cons seg segs ih =>
    rw [List.flatMap_cons]
    cases seg with
    | literal t =>
      rw [literalRuns_literal_literal, hliteral, ← List.append_assoc]
      exact ih (w ++ t)
    | arg a =>
      obtain ⟨hle, hiff⟩ := ih []
      rw [literalRuns_literal_nil, List.nil_append] at hiff
      rw [List.nil_append] at hle
      have hargs : ((Segment.arg a :: segs).filterMap Segment.arg?).length =
          (segs.filterMap Segment.arg?).length + 1 := rfl
      rw [literalRuns_literal_arg, harg, hargs, List.forall_mem_cons, ← hiff]
      omega

/-! ## A typed placeholder at the start -/

/-- No typed placeholder starts another one. -/
theorem typedPlaceholder_append_inj {kind kind' : ParamKind} {r r' : Text}
    (h : typedPlaceholder kind ++ r = typedPlaceholder kind' ++ r') : kind = kind' ∧ r = r' := by
  have htake : ∀ kind r, (typedPlaceholder kind ++ r).take 3 = (typedPlaceholder kind).take 3 := by
    intro kind r
    cases kind <;> rfl
  have hstart := congrArg (List.take 3) h
  rw [htake, htake] at hstart
  have hkind : kind = kind' := by
    cases kind <;> cases kind' <;> first | rfl | exact absurd hstart (by decide)
  subst hkind
  exact ⟨rfl, List.append_cancel_left h⟩

theorem leadingKind?_typedPlaceholder (kind : ParamKind) (rest : Text) :
    leadingKind? (typedPlaceholder kind ++ rest) = some (kind, rest) := by
  cases hlead : leadingKind? (typedPlaceholder kind ++ rest) with
  | none =>
    have hnone := List.findSome?_eq_none_iff.1 hlead kind (mem_kinds kind)
    rw [List.isPrefixOf?_eq_some_iff_append_eq.2 rfl] at hnone
    cases hnone
  | some found =>
    have hsame := List.append_eq_of_isPrefixOf?_eq_some (leadingKind?_eq_some hlead)
    obtain ⟨hkind, hrest⟩ := typedPlaceholder_append_inj hsame.symm
    rw [hkind, hrest]

theorem leadingKind?_eq_some_iff {t rest : Text} {kind : ParamKind} :
    leadingKind? t = some (kind, rest) ↔ t = typedPlaceholder kind ++ rest := by
  constructor
  · exact fun h => (List.append_eq_of_isPrefixOf?_eq_some (leadingKind?_eq_some h)).symm
  · rintro rfl
    exact leadingKind?_typedPlaceholder kind rest

theorem leadingKind?_eq_none_iff {t : Text} :
    leadingKind? t = none ↔ ∀ kind, ¬ typedPlaceholder kind <+: t := by
  constructor
  · rintro h kind ⟨rest, rfl⟩
    rw [leadingKind?_typedPlaceholder] at h
    cases h
  · intro h
    cases hk : leadingKind? t with
    | none => rfl
    | some found =>
      obtain ⟨kind, rest⟩ := found
      exact absurd ⟨rest, (leadingKind?_eq_some_iff.1 hk).symm⟩ (h kind)

theorem extractKinds_typedPlaceholder (kind : ParamKind) (rest : Text) :
    extractKinds (typedPlaceholder kind ++ rest) =
      (placeholder ++ (extractKinds rest).1, kind :: (extractKinds rest).2) := by
  have hlead := leadingKind?_typedPlaceholder kind rest
  obtain ⟨c, r, hcr⟩ : ∃ c r, typedPlaceholder kind ++ rest = c :: r := by
    cases kind <;> exact ⟨_, _, rfl⟩
  rw [hcr] at hlead ⊢
  rw [extractKinds]
  split
  case h_1 heq => rw [hlead] at heq; cases heq; rfl
  case h_2 heq => rw [hlead] at heq; cases heq

theorem extractKinds_cons {c : Char} {r : Text} (h : leadingKind? (c :: r) = none) :
    extractKinds (c :: r) = (c :: (extractKinds r).1, (extractKinds r).2) := by
  rw [extractKinds]
  split
  case h_1 heq => rw [h] at heq; cases heq
  case h_2 => rfl

/-! ## Cutting between matches -/

/-- No match goes on into the text: its first character can only start one. -/
def Apart (t : Text) : Prop := ∀ c, t.head? = some c → ∀ kind, c ∉ (typedPlaceholder kind).tail

theorem apart_typedPlaceholder (kind : ParamKind) (t : Text) :
    Apart (typedPlaceholder kind ++ t) := by
  have hbrace : ∀ kind, '{' ∉ (typedPlaceholder kind).tail := by
    intro kind
    cases kind <;> decide
  intro c hc
  obtain rfl : c = '{' := by cases kind <;> exact (Option.some.inj hc).symm
  exact hbrace

theorem not_isBlank_typedPlaceholder (kind : ParamKind) :
    ∀ c ∈ typedPlaceholder kind, ¬ Text.isBlank c := by
  have hall : (typedPlaceholder kind).all fun c => !Text.isBlank c := by cases kind <;> rfl
  intro c hc
  simpa using List.all_eq_true.1 hall c hc

theorem apart_of_blanks {w : Text} (hw : ∀ c ∈ w, Text.isBlank c) : Apart w := by
  intro c hc kind hmem
  exact not_isBlank_typedPlaceholder kind c (List.mem_of_mem_tail hmem)
    (hw c (List.mem_of_head? hc))

theorem prefix_of_prefix_append {t rest : Text} {kind : ParamKind} (ht : t ≠ []) (hr : Apart rest)
    (h : typedPlaceholder kind <+: t ++ rest) : typedPlaceholder kind <+: t := by
  obtain ⟨more, hmore⟩ := h
  obtain ⟨behind, hbehind, -⟩ | ⟨beyond, hbeyond, hrest⟩ := List.append_eq_append_iff.1 hmore
  · exact ⟨behind, hbehind.symm⟩
  · cases beyond with
    | nil => exact ⟨[], by simpa using hbeyond⟩
    | cons c beyond =>
      -- the match would end in the rest, behind its first character
      refine absurd ?_ (hr c (by simp [hrest]) kind)
      rw [hbeyond, List.tail_append_of_ne_nil ht]
      simp

/-- **The second pass reads both sides of a cut by themselves.** -/
theorem extractKinds_append {t rest : Text} (hr : Apart rest) :
    extractKinds (t ++ rest) =
      ((extractKinds t).1 ++ (extractKinds rest).1,
        (extractKinds t).2 ++ (extractKinds rest).2) := by
  fun_induction extractKinds t with
  | case1 => rfl
  | case2 c r kind after hlead _ tail ih =>
    rw [leadingKind?_eq_some_iff.1 hlead, List.append_assoc, extractKinds_typedPlaceholder, ih,
      List.append_assoc, List.cons_append]
  | case3 c r hlead tail ih =>
    have hnone : leadingKind? (c :: r ++ rest) = none := by
      rw [leadingKind?_eq_none_iff] at hlead ⊢
      exact fun kind hpre => hlead kind (prefix_of_prefix_append (List.cons_ne_nil c r) hr hpre)
    rw [List.cons_append] at hnone ⊢
    rw [extractKinds_cons hnone, ih, List.cons_append]

/-! ## Text without typed placeholders -/

theorem kinds_eq_nil_iff {t : Text} :
    (extractKinds t).2 = [] ↔ ∀ kind, ¬ typedPlaceholder kind <:+: t := by
  fun_induction extractKinds t with
  | case1 => exact ⟨fun _ kind h => by cases kind <;> exact absurd h (by decide), fun _ => rfl⟩
  | case2 c r kind after hlead _ tail ih =>
    have hin : typedPlaceholder kind <:+: c :: r := by
      rw [leadingKind?_eq_some_iff.1 hlead]
      exact List.infix_append' [] _ _
    simpa using ⟨kind, hin⟩
  | case3 c r hlead tail ih =>
    rw [leadingKind?_eq_none_iff] at hlead
    simp only [List.infix_cons_iff, hlead, false_or]
    exact ih

theorem value_eq_self {t : Text} (h : (extractKinds t).2 = []) : (extractKinds t).1 = t := by
  fun_induction extractKinds t with
  | case1 => rfl
  | case2 => cases h
  | case3 c r hlead tail ih => rw [ih h]

/-! ## Trimming -/

theorem head?_extractKinds (t : Text) : (extractKinds t).1.head? = t.head? := by
  cases t with
  | nil => rw [extractKinds]
  | cons c r =>
    cases hlead : leadingKind? (c :: r) with
    | none => rw [extractKinds_cons hlead]; rfl
    | some found =>
      obtain ⟨kind, rest⟩ := found
      rw [leadingKind?_eq_some_iff.1 hlead, extractKinds_typedPlaceholder]
      cases kind <;> rfl

theorem getLast?_extractKinds (t : Text) : (extractKinds t).1.getLast? = t.getLast? := by
  fun_induction extractKinds t with
  | case1 => rfl
  | case2 c r kind after hlead _ tail ih =>
    have hbrace : (typedPlaceholder kind).getLast? = placeholder.getLast? := by cases kind <;> rfl
    rw [leadingKind?_eq_some_iff.1 hlead, List.getLast?_append, List.getLast?_append, hbrace, ih]
  | case3 c r hlead tail ih => rw [List.getLast?_cons, List.getLast?_cons, ih]

theorem extractKinds_append_of_blanks {w : Text} (hw : ∀ c ∈ w, Text.isBlank c) (rest : Text) :
    extractKinds (w ++ rest) = (w ++ (extractKinds rest).1, (extractKinds rest).2) := by
  induction w with
  | nil => rfl
  | cons c w ih =>
    obtain ⟨hc, hw⟩ := List.forall_mem_cons.1 hw
    have hnone : leadingKind? (c :: (w ++ rest)) = none := by
      refine leadingKind?_eq_none_iff.2 fun kind hpre => ?_
      obtain ⟨d, name, hname⟩ : ∃ d name, typedPlaceholder kind = d :: name := by
        cases kind <;> exact ⟨_, _, rfl⟩
      rw [hname, List.cons_prefix_cons] at hpre
      exact not_isBlank_typedPlaceholder kind c (by simp [hname, hpre.1]) hc
    rw [List.cons_append, extractKinds_cons hnone, ih hw, List.cons_append]

/-- Trimming before the second pass is trimming after it. -/
theorem extractKinds_trim (t : Text) :
    extractKinds t.trim = ((extractKinds t).1.trim, (extractKinds t).2) := by
  obtain ⟨before, behind, ht, hbefore, hbehind⟩ := t.between_blanks
  have htight : (extractKinds t.trim).1.Tight := by
    rw [Text.Tight, head?_extractKinds, getLast?_extractKinds]
    exact t.tight_trim
  have hblanks : extractKinds behind = (behind, []) := by
    have h := extractKinds_append_of_blanks hbehind []
    rwa [List.append_nil, extractKinds, List.append_nil] at h
  have hwhole : extractKinds t =
      (before ++ ((extractKinds t.trim).1 ++ behind), (extractKinds t.trim).2) := by
    conv => lhs; rw [ht]
    rw [extractKinds_append_of_blanks hbefore, extractKinds_append (apart_of_blanks hbehind),
      hblanks, List.append_nil]
  rw [hwhole, Text.trim_append_of_blank hbefore, htight.trim_append hbehind]

/-! ## The whole text -/

/-- An argument cuts the text. -/
theorem extractKinds_at_arg (w : Text) (kind : ParamKind) (rest : Text) :
    extractKinds (w ++ (typedPlaceholder kind ++ rest)) =
      ((extractKinds w).1 ++ (placeholder ++ (extractKinds rest).1),
        (extractKinds w).2 ++ kind :: (extractKinds rest).2) := by
  rw [extractKinds_append (apart_typedPlaceholder kind rest), extractKinds_typedPlaceholder]

/-- Without a refused name in the literal text, the second pass finds the arguments. -/
theorem extractKinds_of_clean {w : Text} {segs : List Segment}
    (h : ∀ run ∈ literalRuns (.literal w :: segs), (extractKinds run).2 = []) :
    extractKinds (w ++ segs.flatMap Segment.typed) =
      (w ++ segs.flatMap Segment.canonical, (segs.filterMap Segment.arg?).map (·.kind)) := by
  induction segs generalizing w with
  | nil =>
    have hw := h w (by simp [literalRuns])
    simp only [List.flatMap_nil, List.append_nil, List.filterMap_nil, List.map_nil]
    exact Prod.ext (value_eq_self hw) hw
  | cons seg segs ih =>
    rw [List.flatMap_cons, List.flatMap_cons]
    cases seg with
    | literal t =>
      rw [literalRuns_literal_literal] at h
      rw [Segment.typed, Segment.canonical, ← List.append_assoc, ih h, List.append_assoc]
      rfl
    | arg a =>
      rw [literalRuns_literal_arg, List.forall_mem_cons] at h
      have hrest := ih (w := []) (by rw [literalRuns_literal_nil]; exact h.2)
      rw [List.nil_append, List.nil_append] at hrest
      rw [Segment.typed, Segment.canonical, extractKinds_at_arg, hrest, h.1, value_eq_self h.1]
      rfl

/-- **The second pass finds the arguments**, and it refuses exactly the texts with a refused name in
the literal text. -/
theorem assemble_eq (segs : List Segment) :
    assemble segs =
      if hasTypedPlaceholder segs then .error .typedPlaceholder
      else .ok ⟨Text.trim (segs.flatMap Segment.canonical), segs.filterMap Segment.arg?⟩ := by
  have harg : ∀ w (a : RawArg) r,
      (extractKinds (w ++ (Segment.typed (.arg a) ++ r))).2.length =
        (extractKinds w).2.length + ((extractKinds r).2.length + 1) := by
    intro w a r
    rw [Segment.typed, extractKinds_at_arg, List.length_append, List.length_cons]
  have hcount :=
    (count_segments (fun t => (extractKinds t).2.length) (fun _ => rfl) harg [] segs).2
  simp only [List.nil_append, literalRuns_literal_nil, List.length_eq_zero_iff] at hcount
  simp only [assemble, extractKinds_trim, List.length_map]
  by_cases htyped : hasTypedPlaceholder segs
  · obtain ⟨run, hrun, kind, hin⟩ := hasTypedPlaceholder_iff.1 htyped
    -- the name in the literal text is one placeholder too many
    rw [if_pos htyped, if_neg fun hlen => kinds_eq_nil_iff.1 (hcount.1 hlen run hrun) kind hin]
  · have hclean : ∀ run ∈ literalRuns segs, (extractKinds run).2 = [] := by
      intro run hrun
      exact kinds_eq_nil_iff.2 fun kind hin =>
        htyped (hasTypedPlaceholder_iff.2 ⟨run, hrun, kind, hin⟩)
    have hfound := @extractKinds_of_clean [] segs (by rw [literalRuns_literal_nil]; exact hclean)
    rw [List.nil_append, List.nil_append] at hfound
    have hzip : List.zipWith RawArg.mk ((segs.filterMap Segment.arg?).map (·.kind))
        ((segs.filterMap Segment.arg?).map (·.text)) = segs.filterMap Segment.arg? := by
      simp [List.zipWith_map]
    rw [if_neg htyped, if_pos (hcount.2 hclean), hfound, hzip]

theorem scan_of_ne_nil {text : Text} (h : text.trim ≠ []) :
    scan text = (segments text.trim).bind assemble := by
  unfold scan
  split
  case h_1 hnil => exact absurd hnil h
  case h_2 => rfl

end ScenarioBook.StepText
