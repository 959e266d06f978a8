import ScenarioBook.Proofs.Token.Consume
import ScenarioBook.Proofs.Text.Parts

/-!
# Headers of tables

The header of a table in an accepted source names at least one column, and its names are trimmed,
not blank and distinct (`Token.named_of_tokenize`). Blank and repeated names are refused when the
line is read; that there is a name at all comes from the bar at the end of the line: either it
closes a cell, or the text in front of it is one (`Row.splitCells_ne_nil`).
-/

set_option autoImplicit false

namespace ScenarioBook

/-- Trimming keeps what is not blank. -/
theorem Text.mem_trim {t : Text} {c : Char} (h : c ∈ t) (hc : ¬ isBlank c) : c ∈ t.trim := by
  have hdrop : ∀ {t : Text}, c ∈ t → c ∈ t.dropWhile isBlank := by
    intro t h
    rw [← List.takeWhile_append_dropWhile (p := isBlank) (l := t), List.mem_append] at h
    exact h.resolve_left fun hin => hc (List.mem_takeWhile_imp hin)
  rw [trim, trimEnd, List.mem_reverse]
  exact hdrop (List.mem_reverse.2 (hdrop h))

namespace Row

/-! ## Cells of a line -/

theorem tight_of_mem_readCells {t cell : Text} (h : cell ∈ (readCells t).1) : cell.Tight := by
  fun_induction readCells t with
  | case1 => cases h
  | case2 t cell' rest hread hlt cells tail hcells ih =>
    rw [hcells] at ih
    rcases List.mem_cons.1 h with rfl | h
    · exact Text.tight_trim _
    · exact ih h

theorem tight_of_mem_splitCells {line cell : Text} (h : cell ∈ splitCells line) : cell.Tight := by
  unfold splitCells at h
  split at h
  case h_1 r =>
    simp only at h
    split at h
    case isTrue => exact tight_of_mem_readCells h
    case isFalse =>
      rcases List.mem_append.1 h with h | h
      · exact tight_of_mem_readCells h
      · rw [List.mem_singleton.1 h]
        exact Text.tight_trim _
  case h_2 => cases h

theorem bar_mem_unescapeBars {t : Text} (h : '|' ∈ t) : '|' ∈ unescapeBars t := by
  fun_induction unescapeBars t with
  | case1 r ih => exact List.mem_cons_self
  | case2 c r hc ih =>
    rcases List.mem_cons.1 h with rfl | h
    · exact List.mem_cons_self
    · exact List.mem_cons_of_mem _ (ih h)
  | case3 => exact h

theorem splitCells_ne_nil {line : Text} (h : isTableLine line) : splitCells line ≠ [] := by
  simp only [isTableLine, Bool.and_eq_true, decide_eq_true_eq, Text.startsWith, Text.endsWith,
    List.isPrefixOf_iff_prefix, List.isSuffixOf_iff_suffix] at h
  obtain ⟨⟨hlen, r, rfl⟩, hend⟩ := h
  have hbar : '|' ∈ r := by
    obtain ⟨before, heq⟩ := hend
    cases before with
    | nil => simp [← heq] at hlen
    | cons c before =>
      rw [List.cons_append, List.singleton_append, List.cons.injEq] at heq
      rw [← heq.2]
      simp
  rw [List.singleton_append, splitCells]
  simp only
  split
  case isFalse => simp
  case isTrue hlast =>
    intro hnil
    -- without a cell the rest of the line is the tail, and it holds the last bar
    have htail : (readCells r).2 = r := by
      rw [readCells] at hnil ⊢
      split at hnil
      case h_1 => rfl
      case h_2 => cases hnil
    have hin := Text.mem_trim (bar_mem_unescapeBars hbar) (by decide)
    rw [htail, List.isEmpty_iff] at hlast
    rw [hlast] at hin
    cases hin

/-! ## Names -/

theorem nodup_of_firstRepeated {names seen : List Text} (h : firstRepeated seen names = none) :
    names.Nodup ∧ ∀ name ∈ names, name ∉ seen := by
  induction names generalizing seen with
  | nil => exact ⟨List.nodup_nil, fun _ hn => by cases hn⟩
  | cons name names ih =>
    rw [firstRepeated] at h
    split at h
    case isTrue => cases h
    case isFalse hnew =>
      obtain ⟨hnodup, hfresh⟩ := ih h
      refine ⟨List.nodup_cons.2 ⟨fun hin => ?_, hnodup⟩, List.forall_mem_cons.2 ⟨?_, ?_⟩⟩
      · exact hfresh name hin List.mem_cons_self
      · simpa using hnew
      · exact fun n hn hin => hfresh n hn (List.mem_cons_of_mem _ hin)

theorem nodup_of_headerFault? {cells : List Text} (h : headerFault? cells = none) :
    cells.Nodup ∧ ∀ cell ∈ cells, cell ≠ [] := by
  unfold headerFault? at h
  split at h
  case isTrue => cases h
  case isFalse hblank =>
    refine ⟨(nodup_of_firstRepeated (Option.map_eq_none_iff.1 h)).1, fun cell hcell hnil => ?_⟩
    exact hblank (List.any_eq_true.2 ⟨cell, hcell, by rw [hnil]; rfl⟩)

end Row

/-- The names of a header: at least one, trimmed, not blank and distinct. -/
structure Row.Names (cells : List Text) : Prop where
  nonempty : cells ≠ []
  tight : ∀ cell ∈ cells, cell.Tight
  filled : ∀ cell ∈ cells, cell ≠ []
  distinct : cells.Nodup

namespace Token

/-- A header has names. -/
def Named (t : Token) : Prop :=
  match t.content with
  | .tableHeader _ cells => Row.Names cells
  | _ => True

theorem isTableLine_of_shape {l : Line} (h : l.shape = .tableLine) :
    Row.isTableLine l.text.trim := by
  unfold Line.shape Shape.ofTrimmed at h
  repeat' split at h
  all_goals cases h
  assumption

/-- **Headers of accepted sources have names.** -/
theorem named_of_tokenize {source : Text} {tokens : List Token}
    (h : tokenize source = .ok tokens) : ∀ t ∈ tokens, t.Named := by
  refine Lexer.forall_mem_of_tokenize h ?_ ?_ ?_
  · intro l mode t mode' _ hr
    cases hr with
    | tableHeader hs _ _ hf =>
      obtain ⟨hdistinct, hfilled⟩ := Row.nodup_of_headerFault? hf
      exact ⟨Row.splitCells_ne_nil (isTableLine_of_shape hs),
        fun _ => Row.tight_of_mem_splitCells, hfilled, hdistinct⟩
    | heading | blank | prose | underline | step | tags | tableRow | dataTable | tearDown =>
      exact trivial
  · intro l kind t _ _ _
    exact trivial
  · intro l t _ ht
    obtain ⟨no, span, lineText, content⟩ := t
    cases content <;> exact ht

end Token

end ScenarioBook
