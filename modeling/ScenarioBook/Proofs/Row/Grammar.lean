import ScenarioBook.Proofs.Layout.Rows
import ScenarioBook.Proofs.StepText.Grammar
import ScenarioBook.Proofs.Token.Header

/-!
# The grammar of table lines

Behind its first bar a table line is read from left to right: a backslash makes the next character
literal, a free bar ends a cell, and what stands behind the last free bar is one more cell
(`Reading`). Every table line has exactly one reading (`existsUnique_reading`). The cells that a
bar ends are cut as the reading says; behind the last free bar only escaped bars lose their
backslash (`splitCells_line`). So the cells of a line are those of its reading if and only if
nothing but bars is escaped there (`splitCells_eq_texts_iff`).
-/

set_option autoImplicit false

namespace ScenarioBook

/-- Trimming takes away blanks only. -/
theorem Text.countP_trim (t : Text) :
    t.trim.countP (!isBlank ·) = t.countP (!isBlank ·) := by
  obtain ⟨before, behind, ht, hbefore, hbehind⟩ := t.between_blanks
  have hnone : ∀ w : Text, (∀ c ∈ w, isBlank c) → w.countP (!isBlank ·) = 0 := fun w hw =>
    List.countP_eq_zero.2 fun c hc => by simp [hw c hc]
  calc t.trim.countP (!isBlank ·)
      = (before ++ (t.trim ++ behind)).countP (!isBlank ·) := by
        rw [List.countP_append, List.countP_append, hnone before hbefore, hnone behind hbehind,
          Nat.zero_add, Nat.add_zero]
    _ = t.countP (!isBlank ·) := by rw [← ht]

namespace Row

open StepText (ArgChar Ends)

/-! ## Readings -/

/-- A character of a cell: as it is, or behind a backslash. -/
abbrev CellChar := ArgChar '|'

/-- The character that the cell gets. -/
def CellChar.literal : CellChar → Char
  | .plain c _ _ => c
  | .escaped c => c

/-- The characters as they are written. -/
def spell (chars : List CellChar) : Text := chars.flatMap ArgChar.written

/-- The text of a cell: unescaped, then trimmed. -/
def cellText (chars : List CellChar) : Text := Text.trim (chars.map CellChar.literal)

/-- A line behind its first bar: the cells that a free bar ends, and what stands behind the last
one. -/
structure Reading where
  cells : List (List CellChar)
  rest : List CellChar

namespace Reading

def body (r : Reading) : Text :=
  (r.cells.flatMap fun cell => spell cell ++ ['|']) ++ spell r.rest

/-- The line that is read so. -/
def line (r : Reading) : Text := '|' :: r.body

/-- The cells that the line stands for. The text behind the last bar counts if it is not blank. -/
def texts (r : Reading) : List Text :=
  r.cells.map cellText ++ (if cellText r.rest = [] then [] else [cellText r.rest])

theorem body_cons (cell : List CellChar) (cells : List (List CellChar)) (rest : List CellChar) :
    body ⟨cell :: cells, rest⟩ = spell cell ++ '|' :: body ⟨cells, rest⟩ := by
  simp [body]

end Reading

/-! ## One reading for each line -/

/-- What can follow the characters of a cell: nothing, or the bar that ends it. -/
def AtBar (t : Text) : Prop := t = [] ∨ ∃ after, t = '|' :: after

/-- Characters are told apart by how they are written. -/
theorem spell_append_inj {chars chars' : List CellChar} {t t' : Text} (ht : AtBar t)
    (ht' : AtBar t') (h : spell chars ++ t = spell chars' ++ t') : chars = chars' ∧ t = t' := by
  have hstart : ∀ {t : Text} {c : CellChar} {more : Text}, AtBar t → t ≠ c.written ++ more := by
    rintro _ (⟨c, hb, hc⟩ | c) more (rfl | ⟨after, rfl⟩) heq
    · cases heq
    · exact hc (List.cons.inj heq).1.symm
    · cases heq
    · exact absurd (List.cons.inj heq).1 (by decide)
  induction chars generalizing chars' with
  | nil =>
    cases chars' with
    | nil => exact ⟨rfl, h⟩
    | cons c chars' => exact absurd (h.trans (List.append_assoc ..)) (hstart ht)
  | cons c chars ih =>
    cases chars' with
    | nil => exact absurd (h.symm.trans (List.append_assoc ..)) (hstart ht')
    | cons c' chars' =>
      simp only [spell, List.flatMap_cons, List.append_assoc] at h
      rcases c with ⟨c, hb, hc⟩ | c <;> rcases c' with ⟨c', hb', hc'⟩ | c'
      · obtain ⟨rfl, hrest⟩ := List.cons.inj h
        obtain ⟨rfl, rfl⟩ := ih hrest
        exact ⟨rfl, rfl⟩
      · exact absurd (List.cons.inj h).1 hb
      · exact absurd (List.cons.inj h).1.symm hb'
      · obtain ⟨rfl, hrest⟩ := List.cons.inj (List.cons.inj h).2
        obtain ⟨rfl, rfl⟩ := ih hrest
        exact ⟨rfl, rfl⟩

theorem body_injective {r r' : Reading} (h : r.body = r'.body) : r = r' := by
  obtain ⟨cells, rest⟩ := r
  obtain ⟨cells', rest'⟩ := r'
  have hend : ∀ rest : List CellChar, Reading.body ⟨[], rest⟩ = spell rest ++ [] := by
    simp [Reading.body]
  have hbar : ∀ t : Text, AtBar ('|' :: t) := fun t => .inr ⟨t, rfl⟩
  induction cells generalizing cells' with
  | nil =>
    cases cells' with
    | nil =>
      rw [hend, hend] at h
      rw [(spell_append_inj (.inl rfl) (.inl rfl) h).1]
    | cons cell' cells' =>
      rw [hend, Reading.body_cons] at h
      cases (spell_append_inj (.inl rfl) (hbar _) h).2
  | cons cell cells ih =>
    cases cells' with
    | nil =>
      rw [hend, Reading.body_cons] at h
      cases (spell_append_inj (hbar _) (.inl rfl) h).2
    | cons cell' cells' =>
      rw [Reading.body_cons, Reading.body_cons] at h
      obtain ⟨rfl, hrest⟩ := spell_append_inj (hbar _) (hbar _) h
      obtain ⟨rfl, rfl⟩ := Reading.mk.inj (ih cells' (List.cons.inj hrest).2)
      rfl

/-- Every text is read up to a backslash that may be left at its end. -/
theorem exists_body (t : Text) : ∃ (r : Reading) (last : Text), t = r.body ++ last ∧ Ends last := by
  obtain ⟨chars, rest, ht, hl | ⟨after, rfl⟩⟩ := StepText.exists_argChars '|' t
  · exact ⟨⟨[], chars⟩, rest, ht, hl⟩
  · have hlt : after.length < t.length := by
      rw [ht, List.length_append, List.length_cons]
      omega
    obtain ⟨r, last, rfl, hl⟩ := exists_body after
    refine ⟨⟨chars :: r.cells, r.rest⟩, last, ?_, hl⟩
    rw [Reading.body_cons, List.append_assoc, List.cons_append]
    exact ht
termination_by t.length

/-- **Every table line has one reading.** The bar at its end leaves no backslash over. -/
theorem existsUnique_reading {line : Text} (h : isTableLine line) :
    ∃! r : Reading, r.line = line := by
  simp only [isTableLine, Bool.and_eq_true, decide_eq_true_eq, Text.startsWith, Text.endsWith,
    List.isPrefixOf_iff_prefix, List.isSuffixOf_iff_suffix] at h
  obtain ⟨⟨-, t, rfl⟩, before, hend⟩ := h
  obtain ⟨r, last, ht, rfl | rfl⟩ := exists_body t
  · rw [List.append_nil] at ht
    subst ht
    exact ⟨r, rfl, fun r' hr' => body_injective (List.cons.inj hr').2⟩
  · have hlast := congrArg List.getLast? hend
    rw [ht, ← List.append_assoc, List.getLast?_concat, List.getLast?_concat] at hlast
    exact absurd (Option.some.inj hlast) (by decide)

/-! ## The cells -/

theorem readCell_spell (chars : List CellChar) (rest : Text) :
    readCell (spell chars ++ rest) =
      (readCell rest).map fun (cell, after) => (chars.map CellChar.literal ++ cell, after) := by
  induction chars with
  | nil => simp [spell]
  | cons c chars ih =>
    rw [spell, List.flatMap_cons, List.append_assoc, ← spell]
    rcases c with ⟨c, hb, hc⟩ | c
    · rw [ArgChar.written, List.singleton_append, readCell_cons hb hc, ih, Option.map_map]
      rfl
    · rw [ArgChar.written, List.cons_append, List.singleton_append, readCell, ih, Option.map_map]
      rfl

theorem readCells_body (r : Reading) :
    readCells r.body = (r.cells.map cellText, spell r.rest) := by
  obtain ⟨cells, rest⟩ := r
  induction cells with
  | nil =>
    have hnone : readCell (spell rest) = none := by
      simpa [readCell] using readCell_spell rest []
    simp only [Reading.body, List.flatMap_nil, List.nil_append, List.map_nil]
    rw [readCells]
    split
    case h_1 => rfl
    case h_2 hs => rw [hnone] at hs; cases hs
  | cons cell cells ih =>
    have hcell : readCell (Reading.body ⟨cell :: cells, rest⟩) =
        some (cell.map CellChar.literal, Reading.body ⟨cells, rest⟩) := by
      rw [Reading.body_cons, readCell_spell]
      simp [readCell]
    rw [readCells_of_readCell hcell, ih]
    rfl

/-- The backslash stays in front of the character, which is no bar, when only bars are
unescaped. -/
def CellChar.isStray : CellChar → Bool
  | .plain _ _ _ => false
  | .escaped c => c != '|'

/-- What is left of a character when only bars are unescaped. -/
def CellChar.kept (c : CellChar) : Text := if c.isStray then ['\\', c.literal] else [c.literal]

theorem unescapeBars_cons {c : Char} {t : Text} (h : c = '\\' → t.head? ≠ some '|') :
    unescapeBars (c :: t) = c :: unescapeBars t := by
  refine unescapeBars.eq_2 _ _ fun r hc ht => h hc ?_
  rw [ht]
  rfl

theorem head?_spell (chars : List CellChar) : (spell chars).head? ≠ some '|' := by
  intro h
  rcases chars with _ | ⟨⟨c, hb, hc⟩ | c, chars⟩
  · cases h
  · exact hc (Option.some.inj h)
  · exact absurd (Option.some.inj h) (by decide)

theorem unescapeBars_spell (chars : List CellChar) :
    unescapeBars (spell chars) = chars.flatMap CellChar.kept := by
  induction chars with
  | nil => rfl
  | cons c chars ih =>
    rw [spell, List.flatMap_cons, ← spell, List.flatMap_cons, ← ih]
    rcases c with ⟨c, hb, hc⟩ | c
    · exact unescapeBars_cons fun h => absurd h hb
    · by_cases hc : c = '|'
      · subst hc
        rfl
      · -- the character may be a backslash, but no bar follows it
        have hkept : CellChar.kept (.escaped c) = ['\\', c] := by
          simp [CellChar.kept, CellChar.isStray, CellChar.literal, hc]
        have hnext : ∀ t : Text, (c :: t).head? ≠ some '|' := fun t h => hc (Option.some.inj h)
        rw [hkept, ArgChar.written, List.cons_append, List.singleton_append,
          unescapeBars_cons fun _ => hnext _, unescapeBars_cons fun _ => head?_spell chars]
        rfl

/-- The text behind the last bar, as it is cut. -/
def keptText (chars : List CellChar) : Text := Text.trim (chars.flatMap CellChar.kept)

/-- **The cells of a line, as they are cut.** -/
theorem splitCells_line (r : Reading) :
    splitCells r.line =
      r.cells.map cellText ++ (if keptText r.rest = [] then [] else [keptText r.rest]) := by
  have hkept : Text.trim (unescapeBars (spell r.rest)) = keptText r.rest := by
    rw [unescapeBars_spell, keptText]
  simp only [Reading.line, splitCells, readCells_body, hkept, List.isEmpty_iff]
  split
  · rw [List.append_nil]
  · rfl

/-! ## Stray backslashes -/

/-- Each stray backslash is one more character that trimming cannot take away. -/
theorem countP_keptText (chars : List CellChar) :
    (keptText chars).countP (!Text.isBlank ·) =
      (cellText chars).countP (!Text.isBlank ·) + chars.countP CellChar.isStray := by
  rw [keptText, cellText, Text.countP_trim, Text.countP_trim]
  induction chars with
  | nil => rfl
  | cons c chars ih =>
    have hslash : Text.isBlank '\\' = false := by decide
    rw [List.flatMap_cons, List.countP_append, ih, List.map_cons, List.countP_cons,
      List.countP_cons, CellChar.kept]
    split
    case isTrue hs =>
      simp only [List.countP_cons, List.countP_nil, hslash, Bool.not_false, if_true]
      omega
    case isFalse hs =>
      simp only [List.countP_cons, List.countP_nil]
      omega

theorem keptText_eq_iff {chars : List CellChar} :
    keptText chars = cellText chars ↔ ∀ c, ArgChar.escaped c ∈ chars → c = '|' := by
  have hnone : chars.countP CellChar.isStray = 0 ↔ ∀ c, ArgChar.escaped c ∈ chars → c = '|' := by
    rw [List.countP_eq_zero]
    constructor
    · intro h c hc
      simpa [CellChar.isStray] using h _ hc
    · rintro h (⟨c, hb, hc⟩ | c) hin
      · exact Bool.false_ne_true
      · simp [CellChar.isStray, h c hin]
  rw [← hnone]
  constructor
  · intro h
    have := countP_keptText chars
    rw [h] at this
    omega
  · intro h
    have hkept : ∀ c ∈ chars, CellChar.kept c = [c.literal] := fun c hc =>
      if_neg (List.countP_eq_zero.1 h c hc)
    rw [keptText, cellText, List.flatMap_def, List.map_congr_left hkept, ← List.flatMap_def,
      List.map_eq_flatMap]

/-- **Cutting a table line follows the grammar** if and only if nothing but bars is escaped behind
the last free bar. Every table line has one reading, and there is always a cell. -/
theorem splitCells_eq_texts_iff {line : Text} (h : isTableLine line) :
    (∃! r : Reading, r.line = line) ∧ splitCells line ≠ [] ∧
      ∀ r : Reading, r.line = line →
        (splitCells line = r.texts ↔ ∀ c, ArgChar.escaped c ∈ r.rest → c = '|') := by
  refine ⟨existsUnique_reading h, splitCells_ne_nil h, ?_⟩
  rintro r rfl
  rw [splitCells_line, Reading.texts, List.append_cancel_left_eq, ← keptText_eq_iff]
  constructor
  · intro heq
    split at heq <;> split at heq
    case isTrue.isTrue hkept hcell => rw [hkept, hcell]
    case isTrue.isFalse => cases heq
    case isFalse.isTrue => cases heq
    case isFalse.isFalse => exact (List.cons.inj heq).1
  · intro heq
    rw [heq]

/-- An escaped bar and an escaped backslash in a cell, an empty cell, and an escaped bar at the
end. -/
def menu : Reading :=
  ⟨[[.plain 'a' (by decide) (by decide), .escaped '|', .escaped '\\'], []], [.escaped '|']⟩

theorem splitCells_eq_texts_iff_menu :
    isTableLine "|a\\|\\\\||\\|".toList ∧ menu.line = "|a\\|\\\\||\\|".toList ∧
      menu.texts = ["a|\\".toList, [], ['|']] ∧
      splitCells "|a\\|\\\\||\\|".toList = menu.texts := by
  have h : isTableLine "|a\\|\\\\||\\|".toList := by decide
  refine ⟨h, rfl, by decide, ((splitCells_eq_texts_iff h).2.2 menu rfl).2 ?_⟩
  intro c hc
  exact ArgChar.escaped.inj (List.mem_singleton.1 hc)

/-- The rule of escapes does not hold behind the last free bar: a backslash that escapes a letter
stays there. -/
theorem not_splitCells_eq_texts :
    ¬ ∀ r : Reading, isTableLine r.line → splitCells r.line = r.texts := by
  intro h
  have hcut := h ⟨[], [.plain 'a' (by decide) (by decide), .escaped 'b', .escaped '|']⟩ (by decide)
  rw [splitCells_line] at hcut
  exact absurd hcut (by decide)

end Row

end ScenarioBook
