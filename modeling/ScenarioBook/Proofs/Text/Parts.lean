import Mathlib.Data.List.Infix
import Mathlib.Data.List.TakeWhile
import ScenarioBook.Text.Blank

/-!
# Parts of a text

What the cutting operations leave is a part of the text: taking a character off the end leaves what
the text starts with (`chop_isPrefix`), and a text is what trimming its end leaves with blank
characters behind it (`trimEnd_append_blanks`). A text is `Tight` if no blank stands at either end;
these are the texts that trimming leaves alone (`trim_eq_self_iff`).
-/

set_option autoImplicit false

namespace ScenarioBook.Text

/-! ## Parts -/

theorem chop_isPrefix (c : Char) (t : Text) : t.chop c <+: t := by
  cases h : [c].isSuffixOf? t with
  | none => simp [chop, h]
  | some rest =>
    exact ⟨[c], by simpa [chop, h] using List.append_eq_of_isSuffixOf?_eq_some h⟩

theorem hasPart_iff {t part : Text} : t.hasPart part = true ↔ part <:+: t := by
  induction t with
  | nil => simp [hasPart]
  | cons c r ih =>
    rw [hasPart, Bool.or_eq_true, ih, List.isPrefixOf_iff_prefix, List.infix_cons_iff]

/-! ## Trimming -/

/-- A text is its trimmed form with blanks behind it. -/
theorem trimEnd_append_blanks (t : Text) :
    ∃ w, t = t.trimEnd ++ w ∧ ∀ c ∈ w, isBlank c := by
  refine ⟨(t.reverse.takeWhile isBlank).reverse, ?_, fun c hc => ?_⟩
  · have h := congrArg List.reverse
      (List.takeWhile_append_dropWhile (p := isBlank) (l := t.reverse))
    rw [List.reverse_append, List.reverse_reverse] at h
    exact h.symm
  · exact List.mem_takeWhile_imp (List.mem_reverse.1 hc)

/-- A text is its trimmed form between blanks. -/
theorem between_blanks (t : Text) :
    ∃ before behind, t = before ++ (t.trim ++ behind) ∧ (∀ c ∈ before, isBlank c) ∧
      ∀ c ∈ behind, isBlank c := by
  obtain ⟨behind, hbehind, hblank⟩ := t.trimStart.trimEnd_append_blanks
  refine ⟨t.takeWhile isBlank, behind, ?_, fun c hc => List.mem_takeWhile_imp hc, hblank⟩
  rw [trim, ← hbehind, trimStart, List.takeWhile_append_dropWhile]

theorem dropBlanks_eq_self_iff {t : Text} :
    t.dropWhile isBlank = t ↔ ∀ c, t.head? = some c → ¬ isBlank c := by
  cases t with
  | nil => simp
  | cons c r =>
    by_cases hc : isBlank c
    · have hlen := (List.dropWhile_suffix isBlank (l := r)).length_le
      have hne : r.dropWhile isBlank ≠ c :: r := by
        intro h
        rw [h, List.length_cons] at hlen
        omega
      simp [List.dropWhile_cons_of_pos hc, hne, hc]
    · simp [List.dropWhile_cons_of_neg hc, hc]

theorem head?_dropBlanks {t : Text} {c : Char} (h : (t.dropWhile isBlank).head? = some c) :
    ¬ isBlank c := by
  have := List.head?_dropWhile_not isBlank t
  rw [h] at this
  simpa using this

/-- No blank stands at either end. -/
def Tight (t : Text) : Prop :=
  (∀ c, t.head? = some c → ¬ isBlank c) ∧ ∀ c, t.getLast? = some c → ¬ isBlank c

theorem trimStart_eq_self_iff {t : Text} :
    t.trimStart = t ↔ ∀ c, t.head? = some c → ¬ isBlank c := dropBlanks_eq_self_iff

theorem trimEnd_eq_self_iff {t : Text} :
    t.trimEnd = t ↔ ∀ c, t.getLast? = some c → ¬ isBlank c := by
  rw [trimEnd, List.reverse_eq_iff, List.getLast?_eq_head?_reverse]
  exact dropBlanks_eq_self_iff

theorem getLast?_trimEnd {t : Text} {c : Char} (h : t.trimEnd.getLast? = some c) :
    ¬ isBlank c := by
  rw [trimEnd, List.getLast?_reverse] at h
  exact head?_dropBlanks h

theorem head?_trimEnd {t : Text} {c : Char} (h : t.trimEnd.head? = some c) : t.head? = some c := by
  obtain ⟨w, hw⟩ := trimEnd_isPrefix t
  rw [← hw, List.head?_append, h]
  rfl

/-- What trimming leaves is tight. -/
theorem tight_trim (t : Text) : t.trim.Tight :=
  ⟨fun _ h => head?_dropBlanks (head?_trimEnd h), fun _ h => getLast?_trimEnd h⟩

/-- **Trimming leaves alone exactly the tight texts.** -/
theorem trim_eq_self_iff {t : Text} : t.trim = t ↔ t.Tight := by
  constructor
  · intro h
    rw [← h]
    exact tight_trim t
  · intro h
    rw [trim, trimStart_eq_self_iff.2 h.1, trimEnd_eq_self_iff.2 h.2]

instance (t : Text) : Decidable t.Tight := decidable_of_iff (t.trim = t) trim_eq_self_iff

theorem trimStart_append_of_blank {w : Text} (hw : ∀ c ∈ w, isBlank c) (t : Text) :
    (w ++ t).trimStart = t.trimStart := List.dropWhile_append_of_pos hw

theorem trimEnd_append_of_blank (t : Text) {w : Text} (hw : ∀ c ∈ w, isBlank c) :
    (t ++ w).trimEnd = t.trimEnd := by
  rw [trimEnd, List.reverse_append,
    List.dropWhile_append_of_pos fun c hc => hw c (List.mem_reverse.1 hc), trimEnd]

/-- Blanks before a text do not count when it is trimmed. -/
theorem trim_append_of_blank {w : Text} (hw : ∀ c ∈ w, isBlank c) (t : Text) :
    (w ++ t).trim = t.trim := by
  rw [trim, trimStart_append_of_blank hw, trim]

/-- Blanks behind a text do not count when it is trimmed. -/
theorem trim_append_blanks (t : Text) {w : Text} (hw : ∀ c ∈ w, isBlank c) :
    (t ++ w).trim = t.trim := by
  rw [trim, trimStart, List.dropWhile_append]
  split
  case isTrue hnil =>
    have hstart : t.trimStart = [] := List.isEmpty_iff.1 hnil
    rw [List.dropWhile_eq_nil_iff.2 hw, trim, hstart]
  case isFalse => rw [trimEnd_append_of_blank _ hw, trim, trimStart]

/-- **Blanks behind a tight text are trimmed away.** -/
theorem Tight.trim_append {t w : Text} (ht : t.Tight) (hw : ∀ c ∈ w, isBlank c) :
    (t ++ w).trim = t := by
  rw [trim_append_blanks t hw, trim_eq_self_iff.2 ht]

/-- Trimming the end first makes no difference. -/
theorem trim_trimEnd (t : Text) : t.trimEnd.trim = t.trim := by
  obtain ⟨w, ht, hw⟩ := t.trimEnd_append_blanks
  have h := trim_append_blanks t.trimEnd hw
  rw [← ht] at h
  exact h.symm

/-- A text is tight if a tight one ends it and no blank starts it. -/
theorem Tight.append {t : Text} (ht : t.Tight) (hne : t ≠ []) {c : Char} (hc : ¬ isBlank c)
    (r : Text) : Tight (c :: r ++ t) := by
  refine ⟨fun d hd => ?_, fun d hd => ht.2 d ?_⟩
  · cases hd
    exact hc
  · rw [List.getLast?_append] at hd
    cases hlast : t.getLast? with
    | none => exact absurd (List.getLast?_eq_none_iff.1 hlast) hne
    | some e => rwa [hlast] at hd

theorem tight_singleton {c : Char} (hc : ¬ isBlank c) : Tight [c] :=
  ⟨fun _ h => by cases h; exact hc, fun _ h => by cases h; exact hc⟩

theorem tight_bracket {c d : Char} (hc : ¬ isBlank c) (hd : ¬ isBlank d) (t : Text) :
    Tight (c :: (t ++ [d])) := by
  refine ⟨fun e he => ?_, fun e he => ?_⟩
  · cases he
    exact hc
  · rw [← List.cons_append, List.getLast?_concat] at he
    cases he
    exact hd

/-- Texts one after the other are tight if the first one does not start with a blank and the last
one does not end with one. -/
theorem tight_flatMap {α : Type} {g : α → Text} {l : List α}
    (hhead : ∀ x, l.head? = some x → g x ≠ [] ∧ ∀ c, (g x).head? = some c → ¬ isBlank c)
    (hlast : ∀ x, l.getLast? = some x → g x ≠ [] ∧ ∀ c, (g x).getLast? = some c → ¬ isBlank c) :
    Tight (l.flatMap g) := by
  constructor
  · intro c hc
    cases l with
    | nil => cases hc
    | cons x l =>
      obtain ⟨hne, hstart⟩ := hhead x rfl
      obtain ⟨d, hd⟩ := Option.ne_none_iff_exists'.1 (mt List.head?_eq_none_iff.1 hne)
      rw [List.flatMap_cons, List.head?_append, hd, Option.some_or] at hc
      exact hstart c (hd.trans hc)
  · intro c hc
    cases h : l.getLast? with
    | none =>
      rw [List.getLast?_eq_none_iff.1 h] at hc
      cases hc
    | some x =>
      obtain ⟨l, rfl⟩ := List.getLast?_eq_some_iff.1 h
      obtain ⟨hne, hend⟩ := hlast x h
      obtain ⟨d, hd⟩ := Option.ne_none_iff_exists'.1 (mt List.getLast?_eq_none_iff.1 hne)
      rw [List.flatMap_append, List.flatMap_singleton, List.getLast?_append, hd,
        Option.some_or] at hc
      exact hend c (hd.trans hc)

theorem isBlank_replicate (n : Nat) : ∀ c ∈ List.replicate n ' ', isBlank c := by
  intro c hc
  rw [List.eq_of_mem_replicate hc]
  decide

end ScenarioBook.Text
