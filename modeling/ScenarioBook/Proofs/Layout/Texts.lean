import ScenarioBook.Proofs.Layout.Writable

/-!
# The texts of writable items

What is written for a writable item, line by line. The cells of a row fit under the columns
(`rowFits_of_mem`), the text of a step is scanned as its value and its arguments (`scan_text`) and
stands alone in the first line of the step (`stepLines_eq`), a line of tags is cut into its values
(`splitTags_join`). None of these lines falls apart when it is read (`IsLine`).
-/

set_option autoImplicit false

namespace ScenarioBook

/-! ## Lines of tags -/

section
variable {values : List Text}

/-- The values of tags, written one after the other. -/
theorem join_values_spec (h : ∀ v ∈ values, v ≠ [] ∧ v.Tight ∧ ',' ∉ v ∧ '\n' ∉ v)
    (hne : values ≠ []) :
    [',', ' '].intercalate values ≠ [] ∧ Text.Tight ([',', ' '].intercalate values) ∧
      ([',', ' '].intercalate values).getLast? ≠ some ',' := by
  induction values with
  | nil => exact absurd rfl hne
  | cons v values ih =>
    obtain ⟨⟨hv, htight, hcomma, -⟩, hvs⟩ := List.forall_mem_cons.1 h
    cases values with
    | nil =>
      rw [List.intercalate_singleton]
      exact ⟨hv, htight, fun hlast => hcomma (List.mem_of_getLast? hlast)⟩
    | cons w values =>
      obtain ⟨hjne, hjt, hjc⟩ := ih hvs (List.cons_ne_nil _ _)
      obtain ⟨c, r, rfl⟩ := List.exists_cons_of_ne_nil hv
      have hjoin : [',', ' '].intercalate ((c :: r) :: w :: values) =
          c :: (r ++ [',', ' ']) ++ [',', ' '].intercalate (w :: values) := by
        simp [List.intercalate_cons_cons]
      rw [hjoin]
      refine ⟨by simp, ?_, ?_⟩
      · exact hjt.append hjne (htight.1 c rfl) (r ++ [',', ' '])
      · rw [List.getLast?_append]
        cases hlast : ([',', ' '].intercalate (w :: values)).getLast? with
        | none => exact absurd (List.getLast?_eq_none_iff.1 hlast) hjne
        | some e => rwa [hlast] at hjc

theorem trim_blank_cons {t : Text} (h : t.Tight) : Text.trim (' ' :: t) = t := by
  have := Text.trim_append_of_blank (Text.isBlank_replicate 1) t
  rwa [List.replicate_one, List.singleton_append, Text.trim_eq_self_iff.2 h] at this

/-- **A line of tags is cut into its values.** -/
theorem splitTags_join (h : ∀ v ∈ values, v ≠ [] ∧ v.Tight ∧ ',' ∉ v ∧ '\n' ∉ v)
    (hne : values ≠ []) : splitTags (' ' :: [',', ' '].intercalate values) = values := by
  have hcut : (List.splitOn ',' (' ' :: [',', ' '].intercalate values)).map Text.trim = values := by
    induction values with
    | nil => exact absurd rfl hne
    | cons v values ih =>
      obtain ⟨⟨hv, htight, hcomma, -⟩, hvs⟩ := List.forall_mem_cons.1 h
      have hmem : ',' ∉ ' ' :: v := by simp [hcomma]
      cases values with
      | nil =>
        rw [List.intercalate_singleton, List.splitOn_eq_singleton hmem, List.map_singleton,
          trim_blank_cons htight]
      | cons w values =>
        have hline : ' ' :: [',', ' '].intercalate (v :: w :: values) =
            (' ' :: v) ++ ',' :: ' ' :: [',', ' '].intercalate (w :: values) := by
          simp [List.intercalate_cons_cons]
        rw [hline, List.splitOn_append_cons_self_of_not_mem hmem, List.map_cons,
          ih hvs (List.cons_ne_nil _ _), trim_blank_cons htight]
  rw [splitTags, hcut, List.filter_eq_self]
  intro v hv
  simpa using (h v hv).1

theorem modeAfterTags_blank_cons {t : Text} (hne : t ≠ []) (ht : t.Tight)
    (hc : t.getLast? ≠ some ',') : modeAfterTags (' ' :: t) = .fresh := by
  have hlast : (' ' :: t).getLast? = t.getLast? := List.getLast?_cons_of_ne_nil hne
  have hend : Text.trimEnd (' ' :: t) = ' ' :: t :=
    Text.trimEnd_eq_self_iff.2 fun c h => ht.2 c (hlast ▸ h)
  have hcomma : Text.endsWith (' ' :: t) [','] = false := by
    rw [Text.endsWith, Bool.eq_false_iff]
    intro h
    obtain ⟨init, hinit⟩ := List.isSuffixOf_iff_suffix.1 h
    rw [← hlast, ← hinit, List.getLast?_concat] at hc
    exact hc rfl
  rw [modeAfterTags, hend, hcomma]
  rfl

end

/-! ## Tables -/

/-- The lines of the table are read as table lines with the texts of its headers and cells. -/
structure Table.Legible (t : Table) : Prop where
  columns : t.columns ≠ []
  headers : ∀ h ∈ t.headers, h ≠ [] ∧ h.Tight ∧ '\n' ∉ h
  distinct : t.headers.Nodup
  cells : ∀ cell ∈ t.cells, cell.written.Tight ∧ '\n' ∉ cell.written

theorem Table.Writable.legible {t : Table} (h : t.Writable) : t.Legible :=
  ⟨h.columns, h.headers, h.distinct, h.cells⟩

/-- The line of cells as it stands in the source. -/
def rowText (widths : List Nat) (texts : List Text) : Text :=
  '|' :: Layout.bars widths (texts.map escapeCell)

/-- The row fits under the columns. -/
def RowFits (widths : List Nat) (row : List Text) : Prop :=
  row ≠ [] ∧ row.length ≤ widths.length ∧ ∀ t ∈ row, t.Tight

theorem trim_rowLine {lay : Layout} {widths : List Nat} {row : List Text}
    (hr : RowFits widths row) : (lay.rowLine widths row).trim = rowText widths row := by
  have hne : row.map escapeCell ≠ [] := by simpa using hr.1
  have htight : Text.Tight (rowText widths row) :=
    Layout.tight_bars hne (by simpa using hr.2.1)
  rw [Layout.rowLine, Text.trim_append_of_blank (Text.isBlank_replicate _)]
  exact Text.trim_eq_self_iff.2 htight

theorem firstRepeated_eq_none {ts seen : List Text} (h : ts.Nodup) (hs : ∀ t ∈ ts, t ∉ seen) :
    Row.firstRepeated seen ts = none := by
  induction ts generalizing seen with
  | nil => rfl
  | cons t ts ih =>
    obtain ⟨ht, hts⟩ := List.forall_mem_cons.1 hs
    obtain ⟨hnot, hnodup⟩ := List.nodup_cons.1 h
    rw [Row.firstRepeated, if_neg (by simpa using ht)]
    refine ih hnodup fun u hu hmem => ?_
    rcases List.mem_cons.1 hmem with rfl | hmem
    · exact hnot hu
    · exact hts u hu hmem

theorem length_tableWidths (t : Table) : (Layout.tableWidths t).length = t.columns.length := by
  simp [Layout.tableWidths, Layout.widths, Table.headers]

theorem tableWidths_ne_nil {t : Table} (ht : t.Legible) : Layout.tableWidths t ≠ [] := by
  intro h
  have := length_tableWidths t
  rw [h, List.length_nil] at this
  exact ht.columns (List.length_eq_zero_iff.1 this.symm)

/-- No column is narrower than its header. -/
theorem tableWidths_pos {t : Table} (ht : t.Legible) {w : Nat} (hw : w ∈ Layout.tableWidths t) :
    0 < w := by
  have hfold : ∀ (rows : List (List Text)) (i width : Nat), width ≤ rows.foldl
      (fun width cells => max width ((cells[i]?.map List.length).getD 0)) width := by
    intro rows i
    induction rows with
    | nil => exact fun width => Nat.le_refl width
    | cons row rows ih => exact fun width => (Nat.le_max_left _ _).trans (ih _)
  obtain ⟨⟨header, i⟩, hmem, rfl⟩ := List.mem_map.1 hw
  obtain ⟨h, hh, rfl⟩ := List.mem_map.1 (List.fst_mem_of_mem_zipIdx hmem)
  have hlen : 0 < (escapeCell h).length := by
    obtain ⟨c, r, rfl⟩ := List.exists_cons_of_ne_nil (ht.headers h hh).1
    rw [escapeCell]
    split <;> simp
  exact hlen.trans_le (hfold _ _ _)

theorem Table.mem_cells_of_mem_row {t : Table} {row : List Cell} {cell : Cell} (hr : row ∈ t.rows)
    (hc : cell ∈ row) : cell ∈ t.cells ∨ cell = .empty := by
  obtain ⟨i, -, rfl⟩ := List.mem_map.1 hr
  obtain ⟨col, hcol, rfl⟩ := List.mem_map.1 hc
  rw [List.getD_eq_getElem?_getD]
  cases h : col.cells[i]? with
  | none => exact .inr rfl
  | some cell => exact .inl (List.mem_flatMap.2 ⟨col, hcol, List.mem_of_getElem? h⟩)

theorem Table.length_of_mem_rows {t : Table} {row : List Cell} (hr : row ∈ t.rows) :
    row.length = t.columns.length := by
  obtain ⟨i, -, rfl⟩ := List.mem_map.1 hr
  exact List.length_map _

/-- Each line of a legible table fits under the columns. -/
theorem rowFits_of_mem {t : Table} (ht : t.Legible) {row : List Text}
    (hr : row ∈ t.headers :: Layout.lowerTexts t) : RowFits (Layout.tableWidths t) row := by
  have hlen := length_tableWidths t
  have hne : ∀ {α : Type} {as : List α}, as.length = t.columns.length → as ≠ [] := by
    rintro α as h rfl
    exact ht.columns (List.length_eq_zero_iff.1 h.symm)
  rcases List.mem_cons.1 hr with rfl | hr
  · have hlen' : t.headers.length = t.columns.length := List.length_map _
    exact ⟨hne hlen', by omega, fun h hh => (ht.headers h hh).2.1⟩
  rcases List.mem_cons.1 hr with rfl | hr
  · refine ⟨hne ((List.length_map _).trans hlen), (List.length_map _).le, fun d hd => ?_⟩
    obtain ⟨w, -, rfl⟩ := List.mem_map.1 hd
    have hdash : ∀ c ∈ List.replicate w '-', ¬ Text.isBlank c := by
      intro c hc
      rw [List.eq_of_mem_replicate hc]
      decide
    exact ⟨fun c hc => hdash c (List.mem_of_mem_head? hc),
      fun c hc => hdash c (List.mem_of_getLast? hc)⟩
  · obtain ⟨cells, hcells, rfl⟩ := List.mem_map.1 hr
    have hlen' : (cells.map Cell.written).length = t.columns.length := by
      rw [List.length_map, Table.length_of_mem_rows hcells]
    refine ⟨hne hlen', by omega, fun text htext => ?_⟩
    obtain ⟨cell, hcell, rfl⟩ := List.mem_map.1 htext
    rcases Table.mem_cells_of_mem_row hcells hcell with h | rfl
    · exact (ht.cells cell h).1
    · exact Text.trim_eq_self_iff.1 rfl

theorem Layout.tableLines_eq (lay : Layout) {t : Table} (ht : t.Legible) :
    lay.tableLines t =
      (t.headers :: lowerTexts t).map (lay.rowLine (tableWidths t)) := by
  rw [tableLines, if_pos (by simpa [Table.isInitialized] using ht.columns)]

/-! ## Steps -/

/-- An argument that is read from its line leaves nothing below it. -/
theorem Layout.belowLines_of_readable (lay : Layout) {arg : Arg} (h : arg.Readable) :
    lay.belowLines (.param arg) = [] := by
  cases arg with
  | literal | dynamic | special | specialTable => rfl
  | table | block => cases h

namespace Step

theorem inlineText_of_mem_below {s : Step} {arg : Arg} (h : arg ∈ s.below) :
    inlineText arg = [] := by
  rw [below, List.mem_append, List.mem_map, List.mem_map] at h
  rcases h with ⟨_, -, rfl⟩ | ⟨_, -, rfl⟩ <;> rfl

/-- The text of the line of a step. -/
def text (s : Step) : Text := StepText.written s.line.value s.line.args

section
variable {s : Step} {files : FileSource} {names : List Text}

theorem Writable.tight_text (h : s.Writable files names) : s.text.Tight :=
  Text.trim_eq_self_iff.1 (StepText.trim_written h.tight fun arg ha => (h.args arg ha).1)

theorem Writable.text_ne_nil (h : s.Writable files names) : s.text ≠ [] := fun hnil =>
  h.nonempty (StepText.eq_nil_of_written (fun arg ha => (h.args arg ha).1) hnil)

/-- **The line of a step is read as its value and its arguments.** -/
theorem Writable.scan_text (h : s.Writable files names) :
    StepText.scan s.text = .ok ⟨s.line.value, s.line.args.filterMap Arg.raw?⟩ :=
  StepText.scan_written h.whole h.tight h.nonempty h.typed (fun arg ha => (h.args arg ha).1) h.room

theorem Writable.value_eq (h : s.Writable files names) :
    s.value = s.line.value ++ s.below.flatMap fun _ => ' ' :: placeholder := by
  refine (congrArg Step.value h.shape).trans ?_
  rw [below]
  cases s.block? <;> cases s.table? <;> simp [withBlock, withTable, addInlineTable, pushTrailing]

theorem Writable.args_eq (h : s.Writable files names) : s.args = s.line.args ++ s.below := by
  refine (congrArg Step.args h.shape).trans ?_
  rw [below]
  cases s.block? <;> cases s.table? <;> simp [withBlock, withTable, addInlineTable, pushTrailing]

/-- A step is written as its line and what stands below it. -/
theorem Writable.stepLines_eq (h : s.Writable files names) (lay : Layout) :
    lay.stepLines s = ('*' :: ' ' :: s.text) ::
      s.below.flatMap fun arg => lay.belowLines (.param arg) := by
  have hnone : s.line.args.flatMap (fun arg => lay.belowLines (.param arg)) = [] := by
    rw [List.flatMap_eq_nil_iff]
    exact fun arg ha => lay.belowLines_of_readable (h.args arg ha).1
  have htrim : s.text.trimEnd = s.text := Text.trimEnd_eq_self_iff.2 h.tight_text.2
  have hroom := h.room
  have hcount : s.args.length < (splitPlaceholders s.value).length := by
    rw [length_splitPlaceholders, h.value_eq, h.args_eq, StepText.placeholderCount_below,
      List.length_append]
    omega
  have hline : StepText.written s.value s.args =
      s.text ++ List.replicate s.below.length ' ' := by
    rw [h.value_eq, h.args_eq, text]
    exact StepText.written_below h.exact fun arg => inlineText_of_mem_below
  rw [Layout.stepLines, fragments, StepText.flatMap_fragment, hline,
    Text.trimEnd_append_of_blank _ (Text.isBlank_replicate _), htrim, lay.flatMap_weave hcount,
    h.args_eq, List.flatMap_append, hnone]
  rfl

end

end Step

/-! ## Lines stay lines -/

theorem eq_of_allOf {c d : Char} {t : Text} (h : Text.allOf c t) (hd : d ∈ t) : d = c := by
  simp only [Text.allOf, Bool.and_eq_true, List.all_eq_true, beq_iff_eq] at h
  exact h.2 d hd

theorem tight_of_allOf {c : Char} {t : Text} (h : Text.allOf c t) (hc : ¬ Text.isBlank c) :
    t.Tight :=
  ⟨fun _ hd => eq_of_allOf h (List.mem_of_mem_head? hd) ▸ hc,
    fun _ hd => eq_of_allOf h (List.mem_of_getLast? hd) ▸ hc⟩

theorem isLine_of_tight {t : Text} (h : t.Tight) (hn : '\n' ∉ t) : IsLine t :=
  ⟨hn, fun hr => h.2 _ hr (by decide)⟩

theorem not_mem_escapeCell {t : Text} (h : '\n' ∉ t) : '\n' ∉ escapeCell t := by
  induction t with
  | nil => exact h
  | cons c t ih =>
    simp only [List.mem_cons, not_or] at h
    rw [escapeCell, List.mem_append, not_or]
    refine ⟨?_, ih h.2⟩
    split <;> simp [h.1]

theorem not_mem_escapeLiteral (t : Text) : '\n' ∉ escapeLiteral t := by
  induction t with
  | nil => exact List.not_mem_nil
  | cons c t ih =>
    rw [escapeLiteral, List.mem_append, not_or]
    refine ⟨?_, ih⟩
    by_cases hn : c = '\n'
    · simp [hn]
    · split_ifs <;> simp [Ne.symm hn]

theorem not_mem_inlineText {arg : Arg} (h : arg.OnOneLine) : '\n' ∉ Step.inlineText arg := by
  cases arg with
  | literal v => simp [Step.inlineText, not_mem_escapeLiteral]
  | dynamic n => simpa [Step.inlineText, Arg.OnOneLine, Arg.name] using h
  | special n _ | specialTable n _ => simpa [Step.inlineText, Arg.OnOneLine, Arg.name] using h
  | table | block => simp [Step.inlineText]

theorem not_mem_written {v : Text} {args : List Arg} (hv : '\n' ∉ v)
    (ha : ∀ arg ∈ args, arg.OnOneLine) : '\n' ∉ StepText.written v args := by
  fun_induction StepText.written v args with
  | case1 => exact hv
  | case2 r arg args ih =>
    obtain ⟨harg, ha⟩ := List.forall_mem_cons.1 ha
    simp only [List.mem_cons, not_or] at hv
    rw [List.mem_append, not_or]
    exact ⟨not_mem_inlineText harg, ih hv.2.2 ha⟩
  | case3 r ih =>
    simp only [List.mem_cons, not_or] at hv
    rw [List.mem_append, not_or]
    exact ⟨by decide, ih hv.2.2 ha⟩
  | case4 c r args _ _ ih =>
    simp only [List.mem_cons, not_or] at hv
    rw [List.mem_append, not_or]
    refine ⟨?_, ih hv.2 ha⟩
    split <;> simp [hv.1]

theorem isLine_rowLine {lay : Layout} {widths : List Nat} {row : List Text}
    (hr : RowFits widths row) (hn : ∀ t ∈ row, '\n' ∉ t) : IsLine (lay.rowLine widths row) := by
  have hne : row.map escapeCell ≠ [] := by simpa using hr.1
  have hbars : '\n' ∉ Layout.bars widths (row.map escapeCell) := by
    intro hmem
    obtain ⟨⟨cell, w⟩, hcell, hmem⟩ := List.mem_flatMap.1 hmem
    obtain ⟨t, ht, rfl⟩ := List.mem_map.1 (List.of_mem_zip hcell).1
    simp only [padTo, List.mem_append, List.mem_replicate, List.mem_singleton] at hmem
    rcases hmem with (hmem | ⟨-, hmem⟩) | hmem
    · exact not_mem_escapeCell (hn t ht) hmem
    · cases hmem
    · cases hmem
  refine ⟨?_, ?_⟩
  · simp [Layout.rowLine, hbars]
  · rw [Layout.rowLine, List.getLast?_append, List.getLast?_cons,
      Layout.getLast?_bars hne (by simpa using hr.2.1)]
    simp

theorem isLine_tableLines {lay : Layout} {t : Table} (ht : t.Legible) {line : Text}
    (hl : line ∈ lay.tableLines t) : IsLine line := by
  rw [lay.tableLines_eq ht] at hl
  obtain ⟨row, hrow, rfl⟩ := List.mem_map.1 hl
  refine isLine_rowLine (rowFits_of_mem ht hrow) fun text htext => ?_
  rcases List.mem_cons.1 hrow with rfl | hrow
  · exact (ht.headers text htext).2.2
  rcases List.mem_cons.1 hrow with rfl | hrow
  · obtain ⟨w, -, rfl⟩ := List.mem_map.1 htext
    simp
  · obtain ⟨cells, hcells, rfl⟩ := List.mem_map.1 hrow
    obtain ⟨cell, hcell, rfl⟩ := List.mem_map.1 htext
    rcases Table.mem_cells_of_mem_row hcells hcell with h | rfl
    · exact (ht.cells cell h).2
    · exact List.not_mem_nil

theorem not_mem_of_mem_splitOn {sep : Char} {t piece : Text} (h : piece ∈ t.splitOn sep) :
    sep ∉ piece := by
  induction t generalizing piece with
  | nil =>
    rw [List.splitOn_nil, List.mem_singleton] at h
    rw [h]
    exact List.not_mem_nil
  | cons c t ih =>
    obtain ⟨first, pieces, hs⟩ := List.exists_cons_of_ne_nil (List.splitOn_ne_nil sep t)
    rw [List.splitOn_cons_eq_if_modifyHead, hs, List.modifyHead_cons] at h
    rw [hs] at ih
    split at h
    case isTrue =>
      rcases List.mem_cons.1 h with rfl | h
      · exact List.not_mem_nil
      · exact ih h
    case isFalse hc =>
      rcases List.mem_cons.1 h with rfl | h
      · rw [List.mem_cons, not_or]
        exact ⟨fun heq => hc (beq_iff_eq.2 heq.symm), ih List.mem_cons_self⟩
      · exact ih (List.mem_cons_of_mem _ h)

theorem Step.Writable.isLine {files : FileSource} {names : List Text} {lay : Layout} {s : Step}
    (h : s.Writable files names) {line : Text} (hl : line ∈ lay.stepLines s) : IsLine line := by
  rw [h.stepLines_eq] at hl
  rcases List.mem_cons.1 hl with rfl | hl
  · have htight : Text.Tight ('*' :: ' ' :: s.text) :=
      h.tight_text.append h.text_ne_nil (c := '*') (by decide) [' ']
    refine isLine_of_tight htight ?_
    have := not_mem_written h.newline fun arg ha => (h.args arg ha).2.1
    simpa [Step.text] using this
  rw [Step.below, List.flatMap_append, List.mem_append, List.flatMap_map, List.flatMap_map,
    List.mem_flatMap, List.mem_flatMap] at hl
  rcases hl with ⟨contents, hb, hl⟩ | ⟨t, ht, hl⟩
  · have hfence : IsLine Line.fence := ⟨by decide, by decide⟩
    rcases List.mem_cons.1 hl with rfl | hl
    · exact hfence
    rcases List.mem_append.1 hl with hl | hl
    · exact ⟨not_mem_of_mem_splitOn hl,
        ((h.block contents (Option.mem_toList.1 hb)).2 line hl).2⟩
    · obtain rfl := List.mem_singleton.1 hl
      exact hfence
  · exact isLine_tableLines (h.table t (Option.mem_toList.1 ht)).1.legible hl

theorem isLine_tags {t : Tags} (h : t.Writable) :
    IsLine ("tags: ".toList ++ [',', ' '].intercalate t.values) := by
  have hjoin : ∀ values : List Text, (∀ v ∈ values, '\n' ∉ v) →
      '\n' ∉ [',', ' '].intercalate values := by
    intro values hv
    induction values with
    | nil => exact List.not_mem_nil
    | cons v values ih =>
      obtain ⟨hv, hvs⟩ := List.forall_mem_cons.1 hv
      cases values with
      | nil => rwa [List.intercalate_singleton]
      | cons w values => simp [List.intercalate_cons_cons, hv, ih hvs]
  by_cases hne : t.values = []
  · rw [hne]
    exact ⟨by decide, by decide⟩
  · obtain ⟨hjne, hjt, -⟩ := join_values_spec h hne
    refine isLine_of_tight (hjt.append hjne (c := 't') (by decide) "ags: ".toList) ?_
    have := hjoin t.values fun v hv => (h v hv).2.2.2
    simpa using this

end ScenarioBook
