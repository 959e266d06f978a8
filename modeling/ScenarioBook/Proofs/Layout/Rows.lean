import ScenarioBook.Layout
import ScenarioBook.Proofs.Text.Parts

/-!
# Written rows are read back

A row is written with bars and backslashes escaped and each cell padded to the width of its column.
Reading a cell undoes the escapes (`readCell_escapeCell`), trimming removes the padding, so cutting
a written row gives its cells (`splitCells_bars`). The row of dashes under the header is recognised
as such (`isSeparator_dashes`), and every written row is a table line (`isTableLine_bars`).
-/

set_option autoImplicit false

namespace ScenarioBook

open Row

theorem readCell_cons {c : Char} (hb : c ≠ '\\') (hbar : c ≠ '|') (r : Text) :
    readCell (c :: r) = (readCell r).map fun (cell, rest) => (c :: cell, rest) := by
  rw [readCell.eq_4 _ _ (fun hc => absurd hc hb) (fun _ _ hc => absurd hc hb), if_neg hbar]

/-- **Escaped text is read back**, up to the next bar. -/
theorem readCell_escapeCell {v r cell rest : Text} (h : readCell r = some (cell, rest)) :
    readCell (escapeCell v ++ r) = some (v ++ cell, rest) := by
  induction v with
  | nil => exact h
  | cons c v ih =>
    rw [escapeCell, List.append_assoc]
    by_cases hc : c = '\\' ∨ c = '|'
    · rw [if_pos hc]
      simp [readCell, ih]
    · rw [if_neg hc]
      simp only [not_or] at hc
      rw [List.singleton_append, readCell_cons hc.1 hc.2, ih]
      rfl

theorem readCell_blanks (n : Nat) (rest : Text) :
    readCell (List.replicate n ' ' ++ '|' :: rest) = some (List.replicate n ' ', rest) := by
  induction n with
  | zero => simp [readCell]
  | succ n ih =>
    rw [List.replicate_succ, List.cons_append, readCell_cons (by decide) (by decide), ih]
    rfl

theorem readCells_nil : readCells [] = ([], []) := by
  rw [readCells]
  rfl

theorem readCells_of_readCell {t cell rest : Text} (h : readCell t = some (cell, rest)) :
    readCells t = (cell.trim :: (readCells rest).1, (readCells rest).2) := by
  rw [readCells]
  split
  case h_1 hn => rw [h] at hn; cases hn
  case h_2 hs => rw [h] at hs; cases hs; rfl

namespace Layout

/-- The cells of a row, each padded and with a bar behind it. -/
def bars (widths : List Nat) (cells : List Text) : Text :=
  (cells.zip widths).flatMap fun (cell, width) => padTo width cell ++ ['|']

theorem readCells_bars {texts : List Text} (ht : ∀ t ∈ texts, t.Tight) {widths : List Nat}
    (hlen : texts.length ≤ widths.length) :
    readCells (bars widths (texts.map escapeCell)) = (texts, []) := by
  induction texts generalizing widths with
  | nil => exact readCells_nil
  | cons t texts ih =>
    cases widths with
    | nil => simp at hlen
    | cons w widths =>
      obtain ⟨ht, hts⟩ := List.forall_mem_cons.1 ht
      have hcell : readCell (bars (w :: widths) ((t :: texts).map escapeCell)) =
          some (t ++ List.replicate (w - (escapeCell t).length) ' ',
            bars widths (texts.map escapeCell)) := by
        simp only [bars, List.map_cons, List.zip_cons_cons, List.flatMap_cons, padTo,
          List.append_assoc, List.singleton_append]
        exact readCell_escapeCell (readCell_blanks _ _)
      rw [readCells_of_readCell hcell, ih hts (by simpa using hlen),
        ht.trim_append (Text.isBlank_replicate _)]

/-- **A written row is cut into its cells.** -/
theorem splitCells_bars {texts : List Text} (ht : ∀ t ∈ texts, t.Tight) {widths : List Nat}
    (hlen : texts.length ≤ widths.length) :
    splitCells ('|' :: bars widths (texts.map escapeCell)) = texts := by
  simp only [splitCells, readCells_bars ht hlen]
  rfl

/-! ## The line of a row -/

theorem getLast?_bars {cells : List Text} {widths : List Nat} (h : cells ≠ [])
    (hlen : cells.length ≤ widths.length) : (bars widths cells).getLast? = some '|' := by
  induction cells generalizing widths with
  | nil => exact absurd rfl h
  | cons cell cells ih =>
    cases widths with
    | nil => simp at hlen
    | cons w widths =>
      rw [bars, List.zip_cons_cons, List.flatMap_cons, List.getLast?_append]
      by_cases hc : cells = []
      · simp [hc]
      · have := ih hc (by simpa using hlen)
        rw [bars] at this
        rw [this]
        rfl

/-- The line of a row has no blanks at its ends but the indent. -/
theorem tight_bars {cells : List Text} {widths : List Nat} (h : cells ≠ [])
    (hlen : cells.length ≤ widths.length) : Text.Tight ('|' :: bars widths cells) := by
  refine ⟨fun c hc => ?_, fun c hc => ?_⟩
  · cases hc
    decide
  · rw [List.getLast?_cons, getLast?_bars h hlen] at hc
    cases hc
    decide

theorem isTableLine_bars {cells : List Text} {widths : List Nat} (h : cells ≠ [])
    (hlen : cells.length ≤ widths.length) : isTableLine ('|' :: bars widths cells) = true := by
  have hlast := getLast?_bars h hlen
  have hne : bars widths cells ≠ [] := by
    intro hnil
    rw [hnil] at hlast
    cases hlast
  have hends : Text.endsWith ('|' :: bars widths cells) ['|'] = true := by
    rw [Text.endsWith, List.isSuffixOf_iff_suffix]
    obtain ⟨init, hinit⟩ := List.getLast?_eq_some_iff.1 hlast
    exact ⟨'|' :: init, by rw [hinit]; rfl⟩
  simp [isTableLine, hends, Text.startsWith, List.length_pos_iff.2 hne]

theorem escapeCell_dashes (n : Nat) :
    escapeCell (List.replicate n '-') = List.replicate n '-' := by
  induction n with
  | zero => rfl
  | succ n ih => simp [List.replicate_succ, escapeCell, ih]

/-- **The row under the header is recognised.** -/
theorem isSeparator_dashes {widths : List Nat} (hne : widths ≠ []) (hpos : ∀ w ∈ widths, 0 < w) :
    isSeparator (widths.map fun w => List.replicate w '-') = true := by
  have hall : ∀ w ∈ widths, Text.allOf '-' (List.replicate w '-') = true := by
    intro w hw
    have := hpos w hw
    simp only [Text.allOf, Bool.and_eq_true, Bool.not_eq_true', List.isEmpty_eq_false_iff,
      List.all_eq_true]
    refine ⟨by simp; omega, fun c hc => ?_⟩
    rw [List.eq_of_mem_replicate hc]
    rfl
  simpa [isSeparator, hne] using hall

end Layout

end ScenarioBook
