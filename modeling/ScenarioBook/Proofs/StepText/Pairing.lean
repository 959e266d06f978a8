import ScenarioBook.Proofs.StepText.Filled

/-!
# Each placeholder stands for its own argument

An accepted text gives a value with a placeholder for each argument, and whatever cuts the value at
its placeholders takes the first one for the first argument, the second for the second, and so on.
That is right exactly if the literal text holds no placeholder itself (`paired_iff`): then putting
items in the place of the placeholders is putting them in the place of the arguments
(`fill_canonical`), in the fragments of a step and in the text with parameters alike. Braces behind
backslashes can make literal text that holds one, and then the arguments move
(`not_paired_of_escaped_pair`).
-/

set_option autoImplicit false

namespace ScenarioBook

namespace Fragment

/-- The letters that a fragment stands for. -/
def letters : Fragment → List (Char ⊕ Arg)
  | .text t => t.map .inl
  | .param arg => [.inr arg]

/-- A fragment as it stands in the line of its step. -/
def inline : Fragment → Text
  | .text t => t
  | .param arg => Step.inlineText arg

end Fragment

namespace StepText

section
variable {α : Type} {text w : Text} {segs : List Segment} {scanned : Scanned}

/-- The letters of the segments, with an item in the place of each argument. -/
def placed : List Segment → List α → List (Char ⊕ α)
  | [], _ => []
  | .literal t :: segs, items => t.map .inl ++ placed segs items
  | .arg _ :: segs, x :: items => .inr x :: placed segs items
  | .arg _ :: segs, [] => placed segs []

/-- The letters are all of `whole` but for blanks at its ends. -/
def Inside (letters whole : List (Char ⊕ α)) : Prop :=
  ∃ before behind : Text, (∀ c ∈ before, Text.isBlank c) ∧ (∀ c ∈ behind, Text.isBlank c) ∧
    whole = before.map .inl ++ (letters ++ behind.map .inl)

/-- A segment with its argument as a parameter. -/
def Segment.parameter : Segment → Text
  | .literal t => t
  | .arg a => '<' :: a.text ++ ['>']

/-- The literal text holds a placeholder. -/
def HoldsPlaceholder (segs : List Segment) : Prop :=
  ∃ run ∈ literalRuns segs, placeholder <:+: run

/-- **Placeholders and arguments correspond.** The arguments are those of the text, in order. There
are as many placeholders, and each stands where its argument was written: items put in the place of
the placeholders are in the place of the arguments, the fragments of a step have each argument in
its own place, and so has the text with parameters. -/
structure Paired (text : Text) (segs : List Segment) (scanned : Scanned) : Prop where
  args : scanned.args = segs.filterMap Segment.arg?
  count : placeholderCount scanned.value = scanned.args.length
  places : ∀ {α : Type} (items : List α), items.length = scanned.args.length →
    Inside (fill scanned.value items) (placed segs items)
  fragments : ∀ step : Step, step.value = scanned.value →
    step.args.length = scanned.args.length →
    Inside (step.fragments.flatMap Fragment.letters) (placed segs step.args)
  parameterized :
    StepText.parameterized text = .ok (Text.trim (segs.flatMap Segment.parameter))

/-! ## The canonical text -/

theorem uncrossed_placeholder (v r : Text) : Uncrossed v (placeholder ++ r) :=
  fun _ h => by cases h

/-- **Without a placeholder in the literal text, items in the place of the placeholders are in the
place of the arguments.** -/
theorem fill_canonical (h : ∀ run ∈ literalRuns (.literal w :: segs), placeholderCount run = 0)
    {items : List α} (hlen : items.length = (segs.filterMap Segment.arg?).length) :
    fill (w ++ segs.flatMap Segment.canonical) items = w.map .inl ++ placed segs items := by
  induction segs generalizing w items with
  | nil =>
    have hw := h w (by simp [literalRuns])
    simp [fill_of_count_eq_zero hw, placed]
  | cons seg segs ih =>
    rw [List.flatMap_cons]
    cases seg with
    | literal t =>
      rw [literalRuns_literal_literal] at h
      rw [Segment.canonical, ← List.append_assoc, ih h hlen, List.map_append, List.append_assoc,
        placed]
    | arg a =>
      rw [literalRuns_literal_arg, List.forall_mem_cons] at h
      obtain ⟨hw, hruns⟩ := h
      cases items with
      | nil => simp [Segment.arg?] at hlen
      | cons x items =>
        have hrest := ih (w := []) (by rwa [literalRuns_literal_nil]) (Nat.succ.inj hlen)
        rw [Segment.canonical, fill_append (uncrossed_placeholder w _), fill_of_count_eq_zero hw,
          hw, List.drop_zero, fill_placeholder_append, placed]
        rw [List.nil_append] at hrest
        rw [hrest]
        rfl

theorem not_holdsPlaceholder_iff :
    ¬ HoldsPlaceholder segs ↔ ∀ run ∈ literalRuns segs, placeholderCount run = 0 := by
  simp only [HoldsPlaceholder, not_exists, not_and, placeholderCount_eq_zero_iff]

/-- Placeholders and arguments of the canonical text: there is one for each argument, and no other
exactly if the literal text holds none. -/
theorem placeholderCount_segments (segs : List Segment) :
    (segs.filterMap Segment.arg?).length ≤ placeholderCount (segs.flatMap Segment.canonical) ∧
      (placeholderCount (segs.flatMap Segment.canonical) = (segs.filterMap Segment.arg?).length ↔
        ¬ HoldsPlaceholder segs) := by
  have harg : ∀ w (a : RawArg) r, placeholderCount (w ++ (Segment.canonical (.arg a) ++ r)) =
      placeholderCount w + (placeholderCount r + 1) := by
    intro w a r
    rw [Segment.canonical, placeholderCount_append (uncrossed_placeholder w r),
      placeholderCount_placeholder_append]
  have hcount := count_segments placeholderCount (fun _ => rfl) harg [] segs
  rw [List.nil_append, literalRuns_literal_nil] at hcount
  rwa [not_holdsPlaceholder_iff]

/-- There are as many placeholders as arguments exactly if the literal text holds none. -/
theorem placeholderCount_canonical_iff :
    placeholderCount (segs.flatMap Segment.canonical) = (segs.filterMap Segment.arg?).length ↔
      ¬ HoldsPlaceholder segs := (placeholderCount_segments segs).2

/-- Literal text holds a placeholder only if an escaped pair of braces stands in the text. -/
theorem not_holdsPlaceholder_of_segments (h : segments text = .ok segs)
    (hp : ¬ escapedPair <:+: text) : ¬ HoldsPlaceholder segs :=
  placeholderCount_canonical_iff.1
    (placeholderCount_canonical (atomic_of_segments h) (unpaired_of_segments h hp).1)

/-! ## Fragments and parameters -/

theorem flatMap_letters (step : Step) :
    step.fragments.flatMap Fragment.letters = fill step.value step.args := by
  rw [Step.fragments, flatMap_weave rfl fun c t => rfl]
  have hletter : (Sum.elim (fun c => Fragment.letters (.text [c])) fun arg =>
      Fragment.letters (.param arg)) = fun l => [l] := by
    funext l
    cases l <;> rfl
  rw [hletter, List.flatMap_singleton']

/-- Pieces with parameters between them are fragments with dynamic arguments, if there are enough
of them. -/
theorem interleave_eq_flatMap_weave {pieces names : List Text}
    (h : pieces.length ≤ names.length + 1) :
    interleave pieces names =
      (Step.weave pieces (names.map .dynamic)).flatMap Fragment.inline := by
  have hpiece : ∀ piece : Text, (if piece.isEmpty then [] else [Fragment.text piece]).flatMap
      Fragment.inline = piece := by
    intro piece
    cases piece <;> simp [Fragment.inline]
  induction pieces generalizing names with
  | nil => rfl
  | cons piece pieces ih =>
    cases pieces with
    | nil => rw [interleave, Step.weave, hpiece]
    | cons next pieces =>
      cases names with
      | nil => simp at h
      | cons name names =>
        rw [interleave, weave_cons_cons, List.flatMap_append, hpiece, List.flatMap_cons,
          ih (Nat.succ_le_succ_iff.1 h)]
        · simp [Fragment.inline, Step.inlineText]
        · exact List.cons_ne_nil _ _

theorem flatMap_placed (segs : List Segment) :
    (placed segs ((segs.filterMap Segment.arg?).map fun a => Arg.dynamic a.text)).flatMap
        (Sum.elim (fun c => [c]) Step.inlineText) =
      segs.flatMap Segment.parameter := by
  induction segs with
  | nil => rfl
  | cons seg segs ih =>
    cases seg with
    | literal t =>
      rw [List.filterMap_cons_none rfl, placed, List.flatMap_append, ih, List.flatMap_cons,
        Segment.parameter]
      simp [List.flatMap_map]
    | arg a =>
      have hargs : (Segment.arg a :: segs).filterMap Segment.arg? =
          a :: segs.filterMap Segment.arg? := rfl
      rw [hargs, List.map_cons, placed, List.flatMap_cons, ih, List.flatMap_cons]
      rfl

/-! ## Scanned texts -/

theorem inside_fill (h : ¬ HoldsPlaceholder segs) (items : List α)
    (hlen : items.length = (segs.filterMap Segment.arg?).length) :
    Inside (fill (Text.trim (segs.flatMap Segment.canonical)) items) (placed segs items) := by
  obtain ⟨before, behind, hcanon, hbefore, hbehind⟩ :=
    Text.between_blanks (segs.flatMap Segment.canonical)
  have hruns : ∀ run ∈ literalRuns (.literal [] :: segs), placeholderCount run = 0 := by
    rw [literalRuns_literal_nil]
    exact not_holdsPlaceholder_iff.1 h
  have hfill := fill_canonical hruns hlen
  rw [List.nil_append, hcanon, fill_between_blanks hbefore hbehind] at hfill
  exact ⟨before, behind, hbefore, hbehind, hfill.symm⟩

/-- The text with parameters has each of them in the place of its argument. -/
theorem interleave_canonical (h : ¬ HoldsPlaceholder segs) :
    interleave (splitPlaceholders (Text.trim (segs.flatMap Segment.canonical)))
        ((segs.filterMap Segment.arg?).map (·.text)) =
      Text.trim (segs.flatMap Segment.parameter) := by
  have hroom : (splitPlaceholders (Text.trim (segs.flatMap Segment.canonical))).length ≤
      ((segs.filterMap Segment.arg?).map (·.text)).length + 1 := by
    rw [length_splitPlaceholders, placeholderCount_trim, placeholderCount_canonical_iff.2 h,
      List.length_map]
  obtain ⟨before, behind, hbefore, hbehind, hplaced⟩ :=
    inside_fill h ((segs.filterMap Segment.arg?).map fun a => Arg.dynamic a.text)
      (List.length_map _)
  have hchars : ∀ t : Text, (t.map Sum.inl).flatMap
      (Sum.elim (fun c => [c]) Step.inlineText) = t := by
    intro t
    simp [List.flatMap_map]
  have htight : Text.Tight ((fill (Text.trim (segs.flatMap Segment.canonical))
      ((segs.filterMap Segment.arg?).map fun a => Arg.dynamic a.text)).flatMap
        (Sum.elim (fun c => [c]) Step.inlineText)) := by
    refine tight_flatMap_fill (Text.tight_trim _)
      (fun c hc => ⟨List.cons_ne_nil _ _, Text.tight_singleton hc⟩) fun arg harg => ?_
    obtain ⟨a, -, rfl⟩ := List.mem_map.1 harg
    exact ⟨List.cons_ne_nil _ _, Text.tight_bracket (by decide) (by decide) a.text⟩
  rw [interleave_eq_flatMap_weave hroom, List.map_map, flatMap_weave rfl fun c t => rfl,
    ← flatMap_placed, hplaced, List.flatMap_append, List.flatMap_append, hchars, hchars,
    Text.trim_append_of_blank hbefore, htight.trim_append hbehind]
  rfl

/-- **Placeholders and arguments correspond exactly if the literal text holds no placeholder.** -/
theorem paired_iff (h : scan text = .ok scanned) :
    ∃ segs, segments text.trim = .ok segs ∧
      (Paired text segs scanned ↔ ¬ HoldsPlaceholder segs) := by
  obtain ⟨segs, hsegs, -, rfl⟩ := scan_eq_ok h
  refine ⟨segs, hsegs, fun hp => ?_, fun hheld => ?_⟩
  · have hcount := hp.count
    rw [placeholderCount_trim] at hcount
    exact placeholderCount_canonical_iff.1 hcount
  · refine ⟨rfl, ?_, inside_fill hheld, fun step hvalue hargs => ?_, ?_⟩
    · rw [placeholderCount_trim]
      exact placeholderCount_canonical_iff.2 hheld
    · rw [flatMap_letters, hvalue]
      exact inside_fill hheld step.args hargs
    · rw [parameterized, h, ← interleave_canonical hheld]
      rfl

/-- A quoted argument and a parameter. -/
def loginText : Text := "log in as \"alice\" with <password>".toList

theorem paired_iff_login :
    ∃ scanned segs, scan loginText = .ok scanned ∧ segments loginText.trim = .ok segs ∧
      scanned.args.length = 2 ∧ Paired loginText segs scanned := by
  have hok : (scan loginText).toOption.map (·.args.length) = some 2 := by decide +kernel
  cases hscan : scan loginText with
  | error fault => rw [hscan] at hok; cases hok
  | ok scanned =>
    obtain ⟨segs, hsegs, hpaired⟩ := paired_iff hscan
    refine ⟨scanned, segs, rfl, hsegs, ?_, hpaired.2 ?_⟩
    · rw [hscan] at hok
      exact Option.some.inj hok
    · exact not_holdsPlaceholder_of_segments hsegs (by decide +kernel)

/-- Placeholders and arguments do not correspond in every accepted text: an escaped pair of braces
is a placeholder of the value that no argument belongs to. -/
theorem not_paired_of_escaped_pair :
    ¬ ∀ (text : Text) (scanned : Scanned), scan text = .ok scanned →
      ∃ segs, segments text.trim = .ok segs ∧ Paired text segs scanned := by
  intro h
  have hok : (scan "put \\\x7b\\\x7d in \"a\"".toList).toOption.map
      (fun scanned => (placeholderCount scanned.value, scanned.args.length)) = some (2, 1) := by
    decide +kernel
  cases hscan : scan "put \\\x7b\\\x7d in \"a\"".toList with
  | error fault => rw [hscan] at hok; cases hok
  | ok scanned =>
    obtain ⟨segs, -, hpaired⟩ := h _ scanned hscan
    rw [hscan] at hok
    obtain ⟨hvalue, hargs⟩ := Prod.mk.inj (Option.some.inj hok)
    have hcount := hpaired.count
    rw [hvalue, hargs] at hcount
    cases hcount

end

end StepText

end ScenarioBook
