import ScenarioBook.Proofs.StepText.Typed

/-!
# Placeholders and arguments correspond

`placeholderCount v` is the number of placeholders that cutting the value `v` finds. A step text
without the escaped pair `\x7b\x7d`, each brace after a backslash, has as many placeholders in its
value as it has arguments (`placeholderCount_scan`): the only way to get a placeholder from literal
text is an escaped opening brace with an escaped closing brace directly behind it
(`unpaired_of_segments`). Trimming removes no placeholder, and an argument added below the step adds
one (`placeholderCount_pushTrailing`).
-/

set_option autoImplicit false

namespace ScenarioBook

/-! ## Counting placeholders -/

/-- The number of placeholders in a value, found from left to right. -/
def placeholderCount (v : Text) : Nat := (splitPlaceholders v).length - 1

theorem length_splitPlaceholders (v : Text) :
    (splitPlaceholders v).length = placeholderCount v + 1 := by
  have hpos : 0 < (splitPlaceholders v).length := by
    fun_induction splitPlaceholders v <;> simp_all
  unfold placeholderCount
  omega

@[simp] theorem placeholderCount_nil : placeholderCount [] = 0 := rfl

@[simp] theorem placeholderCount_placeholder_append (r : Text) :
    placeholderCount (placeholder ++ r) = placeholderCount r + 1 := by
  have h : splitPlaceholders (placeholder ++ r) = [] :: splitPlaceholders r := by
    rw [placeholder, List.cons_append, List.cons_append, List.nil_append, splitPlaceholders]
  rw [placeholderCount, h, List.length_cons, length_splitPlaceholders]
  rfl

theorem placeholderCount_cons {c : Char} {r : Text} (h : c = '{' → r.head? ≠ some '}') :
    placeholderCount (c :: r) = placeholderCount r := by
  have hne : ∀ r', c = '{' → r = '}' :: r' → False := by
    rintro r' hc rfl
    exact h hc rfl
  rw [placeholderCount, splitPlaceholders.eq_3 c r hne]
  cases hs : splitPlaceholders r with
  | nil => have := length_splitPlaceholders r; simp [hs] at this
  | cons piece pieces => simp [placeholderCount, hs]

theorem placeholderCount_of_not_pair {c : Char} {r : Text}
    (h : ∀ r', c = '{' → r = '}' :: r' → False) :
    placeholderCount (c :: r) = placeholderCount r := by
  refine placeholderCount_cons fun hc hhead => ?_
  obtain ⟨r', rfl⟩ := List.head?_eq_some_iff.1 hhead
  exact h r' hc rfl

theorem placeholderCount_pair (r : Text) :
    placeholderCount ('{' :: '}' :: r) = placeholderCount r + 1 :=
  placeholderCount_placeholder_append r

/-- No placeholder reaches from one text into the one behind it. -/
def Uncrossed (v r : Text) : Prop := v.getLast? = some '{' → r.head? ≠ some '}'

theorem Uncrossed.tail {c : Char} {v r : Text} (h : Uncrossed (c :: v) r) : Uncrossed v r :=
  fun hv => h (by rw [List.getLast?_cons, hv]; rfl)

theorem Uncrossed.not_pair {c : Char} {v r : Text} (h : Uncrossed (c :: v) r)
    (hne : ∀ r', c = '{' → v = '}' :: r' → False) (r' : Text) (hc : c = '{')
    (hr : v ++ r = '}' :: r') : False := by
  cases v with
  | nil => exact h (by rw [hc]; rfl) (by rw [← List.nil_append r, hr]; rfl)
  | cons d v => exact hne v hc (by rw [List.cons_append, List.cons.injEq] at hr; rw [hr.1])

/-- The placeholders of two texts, if none crosses from one into the other. -/
theorem placeholderCount_append {v r : Text} (h : Uncrossed v r) :
    placeholderCount (v ++ r) = placeholderCount v + placeholderCount r := by
  fun_induction splitPlaceholders v with
  | case1 => simp
  | case2 v ih =>
    rw [List.cons_append, List.cons_append, placeholderCount_pair, placeholderCount_pair,
      ih h.tail.tail]
    omega
  | case3 c v hne _ ih | case4 c v hne _ _ _ ih =>
    rw [List.cons_append, placeholderCount_of_not_pair (h.not_pair hne),
      placeholderCount_of_not_pair hne, ih h.tail]

/-- A character that is no brace divides the placeholders before it from those after it. -/
theorem placeholderCount_append_cons {v r : Text} {c : Char} (ho : c ≠ '{') (hc : c ≠ '}') :
    placeholderCount (v ++ c :: r) = placeholderCount v + placeholderCount r := by
  rw [placeholderCount_append fun _ => by simpa using hc,
    placeholderCount_cons fun h => absurd h ho]

theorem placeholderCount_eq_zero_iff {v : Text} :
    placeholderCount v = 0 ↔ ¬ placeholder <:+: v := by
  fun_induction splitPlaceholders v with
  | case1 => decide
  | case2 r ih =>
    have hin : placeholder <:+: '{' :: '}' :: r := ⟨[], r, rfl⟩
    simp [placeholderCount_pair, hin]
  | case3 c r hne _ ih | case4 c r hne _ _ _ ih =>
    have hpre : ¬ placeholder <+: c :: r := by
      rintro ⟨r', hr'⟩
      obtain ⟨rfl, rfl⟩ := List.cons.inj hr'
      exact hne r' rfl rfl
    rw [placeholderCount_of_not_pair hne, ih, List.infix_cons_iff, not_or, and_iff_right hpre]

/-! ## Trimming -/

theorem ne_brace_of_isBlank {c : Char} (h : Text.isBlank c) : c ≠ '{' ∧ c ≠ '}' := by
  constructor <;> rintro rfl <;> revert h <;> decide

theorem placeholderCount_append_blanks {v w : Text} (hw : ∀ c ∈ w, Text.isBlank c) :
    placeholderCount (v ++ w) = placeholderCount v := by
  induction w generalizing v with
  | nil => simp
  | cons c w ih =>
    have hc := ne_brace_of_isBlank (hw c List.mem_cons_self)
    have hrest : placeholderCount w = 0 := by
      simpa using ih (v := []) fun b hb => hw b (List.mem_cons_of_mem _ hb)
    rw [placeholderCount_append_cons hc.1 hc.2, hrest, Nat.add_zero]

theorem placeholderCount_trimStart (v : Text) :
    placeholderCount v.trimStart = placeholderCount v := by
  induction v with
  | nil => rfl
  | cons c v ih =>
    rw [Text.trimStart, List.dropWhile_cons]
    split
    case isTrue hc =>
      rw [placeholderCount_cons fun h => absurd h (ne_brace_of_isBlank hc).1]
      exact ih
    case isFalse => rfl

theorem placeholderCount_trimEnd (v : Text) : placeholderCount v.trimEnd = placeholderCount v := by
  obtain ⟨w, hv, hw⟩ := v.trimEnd_append_blanks
  have h := placeholderCount_append_blanks (v := v.trimEnd) hw
  rw [← hv] at h
  exact h.symm

theorem placeholderCount_trim (v : Text) : placeholderCount v.trim = placeholderCount v := by
  rw [Text.trim, placeholderCount_trimEnd, placeholderCount_trimStart]

/-! ## Arguments below the step -/

/-- An argument below the step adds a placeholder to the value. -/
theorem placeholderCount_pushTrailing (s : Step) (arg : Arg) :
    placeholderCount (s.pushTrailing arg).value = placeholderCount s.value + 1 := by
  have h : placeholderCount placeholder = 1 := rfl
  rw [Step.pushTrailing, placeholderCount_append_cons (by decide) (by decide), h]

/-! ## The segments of a text -/

theorem map_eq_ok {ε α β : Type} {f : α → β} {x : Except ε α} {b : β} (h : x.map f = .ok b) :
    ∃ a, x = .ok a ∧ f a = b := by
  cases x with
  | error e => cases h
  | ok a => exact ⟨a, rfl, by cases h; rfl⟩

namespace StepText

/-- An escaped opening brace with an escaped closing brace directly behind it. -/
def escapedPair : Text := ['\\', '{', '\\', '}']

/-- Literal segments are single characters, or escapes of a character that is no brace. -/
def Segment.Atomic : Segment → Prop
  | .literal t => (∃ c, t = [c]) ∨ ∃ c, t = ['\\', c] ∧ isReserved c = false
  | .arg _ => True

/-- No literal opening brace stands directly before a literal closing brace. -/
def Unpaired : List Segment → Prop
  | [] => True
  | seg :: segs => (seg = .literal ['{'] → segs.head? ≠ some (.literal ['}'])) ∧ Unpaired segs

theorem readQuoted_isSuffix {t arg rest : Text} (h : readQuoted t = some (arg, rest)) :
    rest <:+ t := by
  fun_induction readQuoted t generalizing arg rest with
  | case1 => cases h
  | case2 => cases h
  | case3 c r ih =>
    simp only [Option.map_eq_some_iff, Prod.exists, Prod.mk.injEq] at h
    obtain ⟨a, b, hab, -, rfl⟩ := h
    exact (ih hab).trans ⟨['\\', c], rfl⟩
  | case4 r =>
    cases h
    exact List.suffix_cons _ _
  | case5 c r _ _ _ ih =>
    simp only [Option.map_eq_some_iff, Prod.exists, Prod.mk.injEq] at h
    obtain ⟨a, b, hab, -, rfl⟩ := h
    exact (ih hab).trans (List.suffix_cons _ _)

theorem readAngled_isSuffix {t arg rest : Text} {special : Bool}
    (h : readAngled t = some (special, arg, rest)) : rest <:+ t := by
  fun_induction readAngled t generalizing special arg rest with
  | case1 => cases h
  | case2 => cases h
  | case3 c r ih =>
    simp only [Option.map_eq_some_iff, Prod.exists, Prod.mk.injEq] at h
    obtain ⟨s, a, b, hab, -, -, rfl⟩ := h
    exact (ih hab).trans ⟨['\\', c], rfl⟩
  | case4 r =>
    cases h
    exact List.suffix_cons _ _
  | case5 c r _ _ _ ih =>
    simp only [Option.map_eq_some_iff, Prod.exists, Prod.mk.injEq] at h
    obtain ⟨s, a, b, hab, -, -, rfl⟩ := h
    exact (ih hab).trans (List.suffix_cons _ _)

theorem atomic_of_segments {t : Text} {segs : List Segment} (h : segments t = .ok segs) :
    ∀ seg ∈ segs, seg.Atomic := by
  fun_induction segments t generalizing segs with
  | case1 => cases h; simp
  | case2 => cases h; simp
  | case3 c r ih =>
    obtain ⟨rest, hrest, rfl⟩ := map_eq_ok h
    refine List.forall_mem_cons.2 ⟨?_, ih hrest⟩
    by_cases hc : isReserved c
    · exact .inl ⟨c, if_pos hc⟩
    · exact .inr ⟨c, if_neg hc, by simpa using hc⟩
  | case4 => cases h
  | case5 r arg rest _ _ _ _ ih =>
    obtain ⟨segs', hsegs, rfl⟩ := map_eq_ok h
    exact List.forall_mem_cons.2 ⟨trivial, ih hsegs⟩
  | case6 => cases h
  | case7 r special arg rest _ _ _ _ _ ih =>
    obtain ⟨segs', hsegs, rfl⟩ := map_eq_ok h
    exact List.forall_mem_cons.2 ⟨trivial, ih hsegs⟩
  | case8 => cases h
  | case9 c r _ _ _ _ _ ih =>
    obtain ⟨rest, hrest, rfl⟩ := map_eq_ok h
    exact List.forall_mem_cons.2 ⟨.inl ⟨c, rfl⟩, ih hrest⟩

/-- **Literal braces meet only in an escaped pair.** -/
theorem unpaired_of_segments {t : Text} {segs : List Segment} (h : segments t = .ok segs)
    (hp : ¬ escapedPair <:+: t) :
    Unpaired segs ∧ (segs.head? = some (.literal ['}']) → ['\\', '}'] <+: t) := by
  fun_induction segments t generalizing segs with
  | case1 => cases h; exact ⟨trivial, by simp⟩
  | case2 => cases h; exact ⟨trivial, by simp⟩
  | case3 c r ih =>
    obtain ⟨rest, hrest, rfl⟩ := map_eq_ok h
    obtain ⟨hun, hhead⟩ := ih hrest fun hi => hp (hi.trans (List.suffix_append ['\\', c] r).isInfix)
    refine ⟨⟨fun hseg hnext => hp ?_, hun⟩, fun hseg => ?_⟩
    · -- an opening brace was read as `\\x7b`, and the closing one behind it as `\\x7d`
      obtain ⟨r', rfl⟩ := hhead hnext
      have hc : c = '{' := by
        by_cases hc : isReserved c
        · simpa [hc] using hseg
        · simp [hc] at hseg
      exact ⟨[], r', by simp [escapedPair, hc]⟩
    · by_cases hc : isReserved c
      · exact ⟨r, by simpa [hc, eq_comm] using hseg⟩
      · simp [hc] at hseg
  | case4 => cases h
  | case5 r arg rest hq _ _ _ ih =>
    obtain ⟨segs', hsegs, rfl⟩ := map_eq_ok h
    have hsuf : rest <:+ '"' :: r := (readQuoted_isSuffix hq).trans (List.suffix_cons _ _)
    exact ⟨⟨by simp, (ih hsegs fun hi => hp (hi.trans hsuf.isInfix)).1⟩, by simp⟩
  | case6 => cases h
  | case7 r special arg rest hq _ _ _ _ ih =>
    obtain ⟨segs', hsegs, rfl⟩ := map_eq_ok h
    have hsuf : rest <:+ '<' :: r := (readAngled_isSuffix hq).trans (List.suffix_cons _ _)
    exact ⟨⟨by simp, (ih hsegs fun hi => hp (hi.trans hsuf.isInfix)).1⟩, by simp⟩
  | case8 => cases h
  | case9 c r _ _ _ _ hc ih =>
    obtain ⟨rest, hrest, rfl⟩ := map_eq_ok h
    have hsuf : r <:+ c :: r := List.suffix_cons _ _
    refine ⟨⟨fun hseg => ?_, (ih hrest fun hi => hp (hi.trans hsuf.isInfix)).1⟩, fun hseg => ?_⟩
    · simp only [Segment.literal.injEq, List.cons.injEq, and_true] at hseg
      exact absurd (by rw [hseg]; rfl) hc
    · simp only [List.head?_cons, Option.some.injEq, Segment.literal.injEq, List.cons.injEq,
        and_true] at hseg
      exact absurd (by rw [hseg]; rfl) hc

/-- Only a literal closing brace puts a closing brace at the start of the value. -/
theorem head?_of_head?_canonical {segs : List Segment} (ha : ∀ seg ∈ segs, seg.Atomic)
    (h : (segs.flatMap Segment.canonical).head? = some '}') :
    segs.head? = some (.literal ['}']) := by
  cases segs with
  | nil => cases h
  | cons seg segs =>
    have hseg := ha seg List.mem_cons_self
    cases seg with
    | arg a => simp [Segment.canonical, placeholder] at h
    | literal t =>
      obtain ⟨c, rfl⟩ | ⟨c, rfl, -⟩ := hseg
      · simp only [List.flatMap_cons, Segment.canonical, List.cons_append, List.nil_append,
          List.head?_cons, Option.some.injEq] at h
        rw [h]
        rfl
      · simp [Segment.canonical] at h

theorem placeholderCount_canonical {segs : List Segment} (ha : ∀ seg ∈ segs, seg.Atomic)
    (hu : Unpaired segs) :
    placeholderCount (segs.flatMap Segment.canonical) = (segs.filterMap Segment.arg?).length := by
  induction segs with
  | nil => rfl
  | cons seg segs ih =>
    obtain ⟨hseg, hrest⟩ := List.forall_mem_cons.1 ha
    have ih := ih hrest hu.2
    cases seg with
    | arg a =>
      rw [List.flatMap_cons, Segment.canonical, placeholderCount_placeholder_append, ih]
      rfl
    | literal t =>
      obtain ⟨c, rfl⟩ | ⟨c, rfl, hc⟩ := hseg
      · rw [List.flatMap_cons, Segment.canonical, List.cons_append, List.nil_append,
          placeholderCount_cons, ih]
        · rfl
        · rintro rfl hhead
          exact hu.1 rfl (head?_of_head?_canonical hrest hhead)
      · rw [List.flatMap_cons, Segment.canonical, List.cons_append, List.cons_append,
          List.nil_append, placeholderCount_cons (fun h => absurd h (by decide)),
          placeholderCount_cons, ih]
        · rfl
        · rintro rfl
          exact absurd hc (by decide)

/-- What reading a step text gives, once it succeeds. -/
theorem scan_eq_ok {text : Text} {scanned : Scanned} (h : scan text = .ok scanned) :
    ∃ segs, segments text.trim = .ok segs ∧ hasTypedPlaceholder segs = false ∧
      scanned = ⟨Text.trim (segs.flatMap Segment.canonical), segs.filterMap Segment.arg?⟩ := by
  by_cases hne : text.trim = []
  · rw [scan, hne] at h
    cases h
  rw [scan_of_ne_nil hne] at h
  cases hsegs : segments text.trim with
  | error fault => rw [hsegs] at h; cases h
  | ok segs =>
    rw [hsegs, Except.bind, assemble_eq] at h
    split at h
    case isTrue => cases h
    case isFalse htyped => exact ⟨segs, rfl, by simpa using htyped, by cases h; rfl⟩

/-- **A text without escaped pair has one placeholder for each argument.** -/
theorem placeholderCount_scan {text : Text} {scanned : Scanned} (h : scan text = .ok scanned)
    (hp : ¬ escapedPair <:+: text) : placeholderCount scanned.value = scanned.args.length := by
  obtain ⟨segs, hsegs, -, rfl⟩ := scan_eq_ok h
  rw [placeholderCount_trim]
  exact placeholderCount_canonical (atomic_of_segments hsegs)
    (unpaired_of_segments hsegs fun hi => hp (hi.trans text.trim_isInfix)).1

end StepText

end ScenarioBook
