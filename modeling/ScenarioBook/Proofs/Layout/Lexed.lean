import ScenarioBook.Proofs.Layout.Texts

/-!
# Reading the lines of an item

The lines of an item are read as tokens (`Item.ReadAs`): one for each line, or for a step with its
block. The lexer looks at the line before in three cases only, a line of dashes under prose, a table
line in an open table and a line after tags that go on, and it looks ahead only after a step, for a
fence. So a line is read on its own, given the mode that the items before leave (`lexed_comment`,
`lexed_table`, `lexed_step` and so on).
-/

set_option autoImplicit false

namespace ScenarioBook

/-! ## Contents -/

theorem Comment.shape_of_isBlank {c : Comment} (h : c.isBlank) : c.shape = .blank := by
  rw [shape, show c.text = blankLine by simpa [isBlank] using h]
  decide

/-- What the line of a comment is read as, in this mode. -/
def Comment.content (mode : Mode) (c : Comment) : Token.Content :=
  match c.shape with
  | .tags text => .tags text.trim (splitTags text)
  | .tableLine =>
    if mode = .table then .tableRow c.text.trim (Row.splitCells c.text.trim)
    else .tableHeader c.text.trim (Row.splitCells c.text.trim)
  | .dataTable path => .dataTable path
  | .tearDown => .tearDown c.text.trim
  | _ => .comment c.text

/-- What the lines of a table are read as. -/
def Table.contents (t : Table) : List Token.Content :=
  let widths := Layout.tableWidths t
  .tableHeader (rowText widths t.headers) t.headers ::
    (Layout.lowerTexts t).map fun row => .tableRow (rowText widths row) row

/-- What the lines of a step are read as. -/
def Step.contents (s : Step) : List Token.Content :=
  .step s.line.value (s.line.args.filterMap Arg.raw?) s.block? ::
    (s.table?.map Table.contents).getD []

mutual

/-- The lines of the item are read as these tokens, behind what leaves `w`. -/
def Item.ReadAs (w : Trail) : Item → List Token → Prop
  | .comment c, ts => ∃ t, ts = [t] ∧ t.content = c.content w.mode ∧ t.asComment = c.text
  | .step t, ts => ts.map (·.content) = t.step.contents
  | .tags t, ts => ts.map (·.content) = [.tags ([',', ' '].intercalate t.values) t.values]
  | .dataTable d, ts =>
    ts.map (·.content) = (d.reference.map fun path => [.dataTable path]).getD d.table.contents
  | .tearDown t, ts => ts.map (·.content) = [.tearDown t.marker]
  | .scenario h items, ts =>
    ∃ t us, ts = t :: us ∧ t.content = .heading .scenario h.title ∧ AllReadAs {} items us

/-- The lines of the items are read as these tokens, behind what leaves `w`. -/
def AllReadAs (w : Trail) : List Item → List Token → Prop
  | [], ts => ts = []
  | i :: is, ts => ∃ us vs, ts = us ++ vs ∧ i.ReadAs w us ∧ AllReadAs (i.trail w) is vs

end

/-! ## Legible lines -/

/-- A line of this shape is read as what it was kept for, behind the items `before`. -/
def Shape.Legible (before : List Item) (text : Text) : Shape → Prop
  | .prose =>
    (trailAfter before).mode ≠ .tags ∧
      ∀ prev ∈ before.getLast?, prev.isBareStep → text.trim ≠ Line.fence
  | .underline _ => ∀ prev ∈ before.getLast?, prev.isProse = false
  | .tags _ => True
  | .tableLine =>
    (trailAfter before).mode ≠ .tags ∧
      ((trailAfter before).mode ≠ .table → Row.headerFault? (Row.splitCells text.trim) = none)
  | .dataTable path => (trailAfter before).mode ≠ .tags ∧ path ≠ []
  | .tearDown => (trailAfter before).mode ≠ .tags ∧ 3 ≤ text.trim.length
  | .blank | .heading _ _ | .step _ => False

/-- The line of the comment is read as what it was kept for, behind the items `before`. -/
def Comment.Legible (before : List Item) (c : Comment) : Prop :=
  c.isBlank ∨ '\n' ∉ c.text ∧ c.text.trimEnd = c.text ∧ c.shape.Legible before c.text

namespace Comment
variable {files : FileSource} {ignored : Ignored} {before : List Item} {c : Comment}

theorem Fits.legible (h : c.Fits files ignored before) : c.Legible before := by
  refine h.imp id fun ⟨hn, htrim, hstays⟩ => ⟨hn, htrim, ?_⟩
  cases hs : c.shape with rw [hs] at hstays
  | prose | underline => exact hstays
  | tags => trivial
  | tableLine => exact ⟨hstays.1, fun hm => (hstays.2.2 hm).2⟩
  | dataTable => exact ⟨hstays.1, hstays.2.1⟩
  | blank | heading | step | tearDown => cases hstays

theorem Legible.isLine (h : c.Legible before) : IsLine (if c.isBlank then [] else c.text) := by
  split
  case isTrue => exact ⟨by decide, by decide⟩
  case isFalse hb =>
    obtain ⟨hnewline, htrim, -⟩ := h.resolve_left hb
    exact ⟨hnewline, fun hr => Text.trimEnd_eq_self_iff.1 htrim _ hr (by decide)⟩

end Comment

/-- The lines of a comment, a step or tags are read as the item, behind the items `before`. -/
def Item.Legible (files : FileSource) (names : List Text) (before : List Item) : Item → Prop
  | .comment c => c.Legible before
  | .step t => t.step.Writable files names
  | .tags t => t.Writable
  | .dataTable _ | .scenario _ _ | .tearDown _ => False

theorem Item.FitsIn.legible {files : FileSource} {names : List Text} {ignored : Ignored}
    {before : List Item} {i : Item} (h : i.FitsIn files names ignored before) :
    i.Legible files names before := by
  cases i with
  | comment c => exact Comment.Fits.legible h
  | step t => exact h
  | tags t => exact h.1
  | dataTable | scenario | tearDown => cases h

theorem FitAll.imp {fits fits' : List Item → Item → Prop}
    (himp : ∀ before i, fits before i → fits' before i) {before items : List Item}
    (h : FitAll fits before items) : FitAll fits' before items := by
  induction items generalizing before with
  | nil => trivial
  | cons i is ih => exact ⟨himp before i h.1, ih h.2⟩

theorem fitAll_append {fits : List Item → Item → Prop} {before items more : List Item} :
    FitAll fits before (items ++ more) ↔
      FitAll fits before items ∧ FitAll fits (before ++ items) more := by
  induction items generalizing before with
  | nil => simp [FitAll]
  | cons i is ih =>
    rw [List.cons_append, FitAll, FitAll, ih, and_assoc, List.append_assoc, List.singleton_append]

theorem FitAll.and {fits : List Item → Item → Prop} {P : Item → Prop} {before items : List Item}
    (h : FitAll fits before items) (hP : ∀ i ∈ items, P i) :
    FitAll (fun before i => fits before i ∧ P i) before items := by
  induction items generalizing before with
  | nil => trivial
  | cons i is ih =>
    obtain ⟨hi, his⟩ := List.forall_mem_cons.1 hP
    exact ⟨⟨h.1, hi⟩, ih h.2 his⟩

/-! ## Reading some lines -/

/-- Reading the lines `ls`, with `rest` behind them, leads from `lx` to `lx'` and adds the tokens
`ts`. -/
structure Lexed (lx : Lexer) (ls rest : List Line) (ts : List Token) (lx' : Lexer) : Prop where
  run : lx.run (ls ++ rest) = lx'.run rest
  tokens : lx'.tokens = lx.tokens ++ ts
  diagnostics : lx'.diagnostics = lx.diagnostics

theorem Lexed.refl (lx : Lexer) (rest : List Line) : Lexed lx [] rest [] lx :=
  ⟨rfl, (List.append_nil _).symm, rfl⟩

theorem Lexed.trans {lx lx' lx'' : Lexer} {ls ls' rest : List Line} {ts ts' : List Token}
    (h : Lexed lx ls (ls' ++ rest) ts lx') (h' : Lexed lx' ls' rest ts' lx'') :
    Lexed lx (ls ++ ls') rest (ts ++ ts') lx'' := by
  refine ⟨?_, ?_, h'.diagnostics.trans h.diagnostics⟩
  · rw [List.append_assoc, h.run, h'.run]
  · rw [h'.tokens, h.tokens, List.append_assoc]

def Line.token (l : Line) (content : Token.Content) : Token := ⟨l.no, l.span, l.text, content⟩

namespace Lexer

/-- The line before is prose that a line of dashes would underline. -/
def OverProse (lx : Lexer) : Prop :=
  lx.mode = .comment ∧ ∃ t, lx.tokens.getLast? = some t ∧ t.isProse

section
variable {lx : Lexer} {l : Line} {rest : List Line}

theorem lexed_push {content : Token.Content} {mode : Mode} {shape : Shape} (hs : l.shape = shape)
    (hne : ∀ text, shape ≠ .step text) (h : lx.other l shape = lx.push l content mode) :
    Lexed lx [l] rest [l.token content] (lx.push l content mode) := by
  refine ⟨?_, rfl, rfl⟩
  have hc : lx.consume l rest = (lx.push l content mode, rest) := by
    unfold consume
    split
    case h_1 text ht => exact absurd (hs.symm.trans ht) (hne text)
    case h_2 => rw [hs, h]
  rw [List.singleton_append, run, hc]

/-! ## One line -/

/-- The last token after a push is prose only if the pushed one is. -/
theorem overProse_push {content : Token.Content} {mode : Mode}
    (h : (lx.push l content mode).OverProse) :
    ∃ text, content = .comment text ∧ text ≠ blankLine := by
  obtain ⟨-, t, hlast, hprose⟩ := h
  rw [push, List.getLast?_concat] at hlast
  cases hlast
  cases content with
  | comment text => exact ⟨text, rfl, by simpa [Token.isProse] using hprose⟩
  | _ => simp [Token.isProse] at hprose

theorem asComment_token {c : Comment} (mode : Mode) (hl : c.isBlank ∨ l.text.trimEnd = c.text) :
    (l.token (c.content mode)).asComment = c.text := by
  have hcomment : ∀ text, c.content mode = .comment text → text = c.text := by
    intro text h
    unfold Comment.content at h
    split at h
    case h_2 => split at h <;> cases h
    all_goals cases h
    rfl
  unfold Token.asComment
  split
  case h_1 text h => exact hcomment text h
  case h_2 hne =>
    refine hl.resolve_left fun hb => hne c.text ?_
    simp only [Line.token, Comment.content, Comment.shape_of_isBlank hb]

/-- **The line of a comment is read as what it was kept for.** -/
theorem lexed_comment {before : List Item} {c : Comment} (h : c.Legible before)
    (hl : l.text = if c.isBlank then [] else c.text)
    (hm : lx.mode = (trailAfter before).mode)
    (hu : lx.OverProse → ∃ prev ∈ before.getLast?, prev.isProse) :
    Lexed lx [l] rest [l.token (c.content lx.mode)]
      (lx.push l (c.content lx.mode) (c.shape.trail (trailAfter before)).mode) := by
  by_cases hb : c.isBlank
  · have hs : l.shape = .blank := by
      rw [Line.shape, hl, if_pos hb]
      rfl
    have htext : c.text = blankLine := by simpa [Comment.isBlank] using hb
    simp only [Comment.content, Comment.shape_of_isBlank hb, htext]
    exact lexed_push hs (fun _ h => by cases h) rfl
  rw [if_neg hb] at hl
  obtain ⟨-, htrim, hlegible⟩ := h.resolve_left hb
  have htext : l.text.trimEnd = c.text := by rw [hl, htrim]
  have hshape : l.shape = c.shape := by rw [Line.shape, hl, Comment.shape]
  simp only [Comment.content]
  cases hs : c.shape with rw [hs] at hlegible hshape
  | prose =>
    refine lexed_push hshape (fun _ h => by cases h) ?_
    rw [other, if_neg (hm ▸ hlegible.1), comment, htext]
    rfl
  | underline kind =>
    refine lexed_push hshape (fun _ h => by cases h) ?_
    -- the line would underline prose only, and none stands before it
    have hnot : ∀ t, lx.tokens.getLast? = some t → ¬ (lx.mode = .comment ∧ t.isProse) := by
      rintro t hlast ⟨hmode, hprose⟩
      obtain ⟨prev, hprev, hover⟩ := hu ⟨hmode, t, hlast, hprose⟩
      rw [hlegible prev hprev] at hover
      cases hover
    rw [other, underline]
    split
    case h_1 t hlast => rw [if_neg (hnot t hlast), comment, htext]; rfl
    case h_2 => rw [comment, htext]; rfl
  | tags text => exact lexed_push hshape (fun _ h => by cases h) rfl
  | tableLine =>
    obtain ⟨htags, hheader⟩ := hlegible
    rw [← hm] at htags hheader
    refine lexed_push hshape (fun _ h => by cases h) ?_
    rw [other, if_neg htags, tableLine, hl]
    by_cases ht : lx.mode = .table
    · simp only [if_pos ht]
      rfl
    · simp only [if_neg ht, hheader ht]
      rfl
  | dataTable path =>
    obtain ⟨htags, hne⟩ := hlegible
    rw [← hm] at htags
    refine lexed_push hshape (fun _ h => by cases h) ?_
    rw [other, if_neg htags, dataTable, if_neg (by simpa using hne), hm]
    rfl
  | tearDown =>
    obtain ⟨htags, hlen⟩ := hlegible
    rw [← hm] at htags
    refine lexed_push hshape (fun _ h => by cases h) ?_
    rw [other, if_neg htags, tearDown, hl, if_neg (by omega)]
    rfl
  | blank | heading | step => cases hlegible

theorem lexed_heading {kind : HeadingKind} {title : Text} (ht : title ≠ [])
    (hs : l.shape = .heading kind title) :
    Lexed lx [l] rest [l.token (.heading kind title)] (lx.push l (.heading kind title) .fresh) := by
  refine lexed_push hs (fun _ h => by cases h) ?_
  rw [other, heading, if_neg]
  simp [ht]

theorem lexed_tearDown {marker : Text} (hu : Text.allOf '_' marker) (h3 : 3 ≤ marker.length)
    (hl : l.text = marker) (hm : lx.mode ≠ .tags) :
    Lexed lx [l] rest [l.token (.tearDown marker)] (lx.push l (.tearDown marker) .fresh) := by
  have htrim : l.text.trim = marker := by
    rw [hl, Text.trim_eq_self_iff.2 (tight_of_allOf hu (by decide))]
  have hs : l.shape = .tearDown := by rw [Line.shape, htrim, Shape.ofTrimmed_marker hu]
  refine lexed_push hs (fun _ h => by cases h) ?_
  rw [other, if_neg hm, htrim, tearDown, if_neg (by omega)]

theorem lexed_dataTable {path : Text} (hne : path ≠ []) (ht : path.Tight)
    (hl : l.text = "table: ".toList ++ path) (hm : lx.mode ≠ .tags) :
    Lexed lx [l] rest [l.token (.dataTable path)] (lx.push l (.dataTable path) lx.mode) := by
  have htrim : l.text.trim = "table:".toList ++ ' ' :: path := by
    rw [hl]
    exact Text.trim_eq_self_iff.2 (ht.append hne (c := 't') (by decide) "able: ".toList)
  have hs : l.shape = .dataTable path := by
    rw [Line.shape, htrim, Shape.ofTrimmed_dataTable, trim_blank_cons ht]
  refine lexed_push hs (fun _ h => by cases h) ?_
  rw [other, if_neg hm, dataTable, if_neg (by simpa using hne)]

theorem lexed_tags {t : Tags} (ht : t.Writable)
    (hl : l.text = "tags: ".toList ++ [',', ' '].intercalate t.values) :
    Lexed lx [l] rest [l.token (.tags ([',', ' '].intercalate t.values) t.values)]
      (lx.push l (.tags ([',', ' '].intercalate t.values) t.values) .fresh) := by
  by_cases hne : t.values = []
  · have hs : l.shape = .tags [] := by
      rw [Line.shape, hl, hne]
      decide
    refine lexed_push hs (fun _ h => by cases h) ?_
    rw [hne]
    rfl
  · obtain ⟨hjne, hjt, hjc⟩ := join_values_spec ht hne
    have htrim : l.text.trim = "tags:".toList ++ ' ' :: [',', ' '].intercalate t.values := by
      rw [hl]
      exact Text.trim_eq_self_iff.2 (hjt.append hjne (c := 't') (by decide) "ags: ".toList)
    have hs : l.shape = .tags (' ' :: [',', ' '].intercalate t.values) := by
      rw [Line.shape, htrim, Shape.ofTrimmed_tags]
    refine lexed_push hs (fun _ h => by cases h) ?_
    rw [other, tags, splitTags_join ht hne, trim_blank_cons hjt,
      modeAfterTags_blank_cons hjne hjt hjc]

end

/-! ## Tables -/

section
variable {lx : Lexer} {l : Line} {ls rest : List Line} {lay : Layout} {widths : List Nat}
  {row : List Text}

theorem other_row (hr : RowFits widths row) (hl : l.text = lay.rowLine widths row) :
    l.shape = .tableLine ∧ l.text.trim = rowText widths row ∧
      Row.splitCells (rowText widths row) = row := by
  have hne : row.map escapeCell ≠ [] := by simpa using hr.1
  have htrim : l.text.trim = rowText widths row := by rw [hl, trim_rowLine hr]
  refine ⟨?_, htrim, Layout.splitCells_bars hr.2.2 hr.2.1⟩
  rw [Line.shape, htrim]
  exact Shape.ofTrimmed_row (Layout.isTableLine_bars hne (by simpa using hr.2.1))

theorem lexed_header (hr : RowFits widths row) (hl : l.text = lay.rowLine widths row)
    (hempty : ∀ t ∈ row, t ≠ []) (hnodup : row.Nodup) (hm : lx.mode ≠ .tags)
    (ht : lx.mode ≠ .table) :
    Lexed lx [l] rest [l.token (.tableHeader (rowText widths row) row)]
      (lx.push l (.tableHeader (rowText widths row) row) .table) := by
  obtain ⟨hs, htrim, hcells⟩ := other_row hr hl
  have hfault : Row.headerFault? row = none := by
    have hany : row.any (·.isEmpty) = false := by simpa using hempty
    rw [Row.headerFault?, hany, firstRepeated_eq_none hnodup (fun _ _ h => by cases h)]
    rfl
  refine lexed_push hs (fun _ h => by cases h) ?_
  simp only [other, if_neg hm, tableLine, htrim, hcells, if_neg ht, hfault]

theorem lexed_row (hr : RowFits widths row) (hl : l.text = lay.rowLine widths row)
    (ht : lx.mode = .table) :
    Lexed lx [l] rest [l.token (.tableRow (rowText widths row) row)]
      (lx.push l (.tableRow (rowText widths row) row) .table) := by
  obtain ⟨hs, htrim, hcells⟩ := other_row hr hl
  have hm : lx.mode ≠ .tags := by simp [ht]
  refine lexed_push hs (fun _ h => by cases h) ?_
  simp only [other, if_neg hm, tableLine, htrim, hcells, if_pos ht]

/-- In an open table every further line is a row of it. -/
theorem lexed_rows {rows : List (List Text)} (rest : List Line)
    (hr : ∀ row ∈ rows, RowFits widths row) (hl : ls.map (·.text) = rows.map (lay.rowLine widths))
    (ht : lx.mode = .table) :
    ∃ ts lx', Lexed lx ls rest ts lx' ∧
      ts.map (·.content) = (rows.map fun row => .tableRow (rowText widths row) row) ∧
      lx'.mode = .table := by
  induction rows generalizing lx ls with
  | nil =>
    obtain rfl : ls = [] := List.map_eq_nil_iff.1 hl
    exact ⟨[], lx, Lexed.refl lx rest, rfl, ht⟩
  | cons row rows ih =>
    obtain ⟨hrow, hrows⟩ := List.forall_mem_cons.1 hr
    obtain ⟨l, ls, rfl, hl, hls⟩ := List.map_eq_cons_iff.1 hl
    obtain ⟨ts, lx', hlexed, hts, hmode⟩ := ih hrows hls
      (show (lx.push l (.tableRow (rowText widths row) row) .table).mode = .table from rfl)
    exact ⟨_, lx', (lexed_row hrow hl ht).trans hlexed, congrArg _ hts, hmode⟩

end

/-! ## The lines of a table -/

/-- **The lines of a table are read as its header and its rows.** -/
theorem lexed_table {ls : List Line} {lay : Layout} {t : Table} (lx : Lexer) (rest : List Line)
    (ht : t.Legible) (hl : ls.map (·.text) = lay.tableLines t) (hm : lx.mode ≠ .tags)
    (hmt : lx.mode ≠ .table) :
    ∃ ts lx', Lexed lx ls rest ts lx' ∧ ts.map (·.content) = t.contents ∧
      lx'.mode = .table := by
  have hfit : ∀ row ∈ t.headers :: Layout.lowerTexts t, RowFits (Layout.tableWidths t) row :=
    fun row => rowFits_of_mem ht
  obtain ⟨hheader, hrows⟩ := List.forall_mem_cons.1 hfit
  rw [lay.tableLines_eq ht] at hl
  obtain ⟨l, ls, rfl, hl, hls⟩ := List.map_eq_cons_iff.1 hl
  have hhead : Lexed lx [l] (ls ++ rest) _ _ :=
    lexed_header hheader hl (fun h hh => (ht.headers h hh).1) ht.distinct hm hmt
  obtain ⟨ts, lx', hlexed, hts, hmode⟩ := lexed_rows rest hrows hls
    (show (lx.push l (.tableHeader (rowText (Layout.tableWidths t) t.headers) t.headers)
      .table).mode = .table from rfl)
  exact ⟨_, lx', hhead.trans hlexed, congrArg _ hts, hmode⟩

end Lexer

theorem Line.takeBlock_append {block rest : List Line} {l : Line} (h : ∀ b ∈ block, ¬ b.isFence)
    (hl : l.isFence) : takeBlock (block ++ l :: rest) = some (block.map (·.text), rest) := by
  induction block with
  | nil => rw [List.nil_append, takeBlock, if_pos hl]; rfl
  | cons b block ih =>
    obtain ⟨hb, hblock⟩ := List.forall_mem_cons.1 h
    rw [List.cons_append, takeBlock, if_neg hb, ih hblock]
    rfl

/-! ## The lines of a step -/

/-- No fence follows. -/
def Fenceless (rest : List Line) : Prop := ∀ l ∈ rest.head?, ¬ l.isFence

theorem fenceless_of_head {ls : List Line} {t : Text} {ts : List Text}
    (hl : ls.map (·.text) = t :: ts) (ht : t.trim ≠ Line.fence) (rest : List Line) :
    Fenceless (ls ++ rest) := by
  obtain ⟨l, ls, rfl, hl, -⟩ := List.map_eq_cons_iff.1 hl
  intro l' hl'
  cases hl'
  simpa [Line.isFence, hl] using ht

theorem isFence_of_text {l : Line} (h : l.text = Line.fence) : l.isFence := by
  rw [Line.isFence, h]
  rfl

namespace Lexer

section
variable {l : Line} {ls rest : List Line} {lay : Layout} {s : Step}
  {files : FileSource} {names : List Text}

theorem consume_step (lx : Lexer) (h : s.Writable files names)
    (hl : l.text = '*' :: ' ' :: s.text) :
    lx.consume l rest = lx.step l s.text rest := by
  have htight : Text.Tight ('*' :: ' ' :: s.text) :=
    h.tight_text.append h.text_ne_nil (c := '*') (by decide) [' ']
  have hs : l.shape = .step s.text := by
    rw [Line.shape, hl, Text.trim_eq_self_iff.2 htight, Shape.ofTrimmed_step,
      trim_blank_cons h.tight_text]
  rw [consume, hs]

theorem lexed_stepLine (lx : Lexer) (h : s.Writable files names)
    (hl : l.text = '*' :: ' ' :: s.text) (hrest : Fenceless rest) :
    ∃ t lx', Lexed lx [l] rest [t] lx' ∧
      t.content = .step s.line.value (s.line.args.filterMap Arg.raw?) none ∧
      lx'.mode = .fresh := by
  refine ⟨_, lx.pushStep l s.text ⟨s.line.value, s.line.args.filterMap Arg.raw?⟩ none,
    ⟨?_, rfl, rfl⟩, rfl, rfl⟩
  rw [List.singleton_append, run, lx.consume_step h hl, step, h.scan_text]
  cases rest with
  | nil => rfl
  | cons next after =>
    have hnext : ¬ next.isFence := hrest next rfl
    simp only [if_neg hnext]

theorem lexed_stepBlock {opening closing : Line} {block : List Line} (lx : Lexer)
    (h : s.Writable files names) (hl : l.text = '*' :: ' ' :: s.text)
    (ho : opening.isFence) (hb : ∀ b ∈ block, ¬ b.isFence) (hc : closing.isFence) :
    ∃ t lx', Lexed lx (l :: opening :: (block ++ [closing])) rest [t] lx' ∧
      t.content = .step s.line.value (s.line.args.filterMap Arg.raw?)
        (some (['\n'].intercalate (block.map (·.text)))) ∧
      lx'.mode = .fresh := by
  refine ⟨_, lx.pushStep l s.text ⟨s.line.value, s.line.args.filterMap Arg.raw?⟩
    (some (['\n'].intercalate (block.map (·.text)))), ⟨?_, rfl, rfl⟩, rfl, rfl⟩
  have hblock : Line.takeBlock (block ++ [closing] ++ rest) = some (block.map (·.text), rest) := by
    rw [List.append_assoc]
    exact Line.takeBlock_append hb hc
  rw [List.cons_append, List.cons_append, run, lx.consume_step h hl, step, h.scan_text]
  simp only [if_pos ho, hblock]

theorem fenceless_table {t : Table} (ht : t.Legible) (hl : ls.map (·.text) = lay.tableLines t)
    (rest : List Line) : Fenceless (ls ++ rest) := by
  rw [lay.tableLines_eq ht] at hl
  refine fenceless_of_head hl ?_ rest
  rw [trim_rowLine (rowFits_of_mem ht List.mem_cons_self)]
  exact fun h => by cases h

/-- The line of a step is read with the block below it. -/
theorem lexed_upToTable (lx : Lexer) (h : s.Writable files names)
    (hl : l.text = '*' :: ' ' :: s.text)
    (hls : ls.map (·.text) =
      s.block?.toList.flatMap fun contents => lay.belowLines (.param (.block contents)))
    (hrest : s.block? = none → Fenceless rest) :
    ∃ t lx', Lexed lx (l :: ls) rest [t] lx' ∧
      t.content = .step s.line.value (s.line.args.filterMap Arg.raw?) s.block? ∧
      lx'.mode = .fresh := by
  cases hb : s.block? with
  | none =>
    rw [hb] at hls
    obtain rfl : ls = [] := List.map_eq_nil_iff.1 hls
    exact lexed_stepLine lx h hl (hrest hb)
  | some contents =>
    rw [hb, Option.toList_some, List.flatMap_singleton] at hls
    obtain ⟨opening, ls, rfl, ho, hls⟩ := List.map_eq_cons_iff.1 hls
    obtain ⟨block, ends, rfl, hblock, hends⟩ := List.map_eq_append_iff.1 hls
    obtain ⟨closing, rfl, hc⟩ := List.map_eq_singleton_iff.1 hends
    have hcontents : contents = ['\n'].intercalate (block.map (·.text)) := by
      rw [hblock, List.intercalate_splitOn]
    have hfences : ∀ b ∈ block, ¬ b.isFence := by
      intro b hb'
      have hmem : b.text ∈ contents.splitOn '\n' := hblock ▸ List.mem_map_of_mem hb'
      simpa [Line.isFence] using ((h.block contents hb).2 b.text hmem).1
    rw [hcontents]
    exact lexed_stepBlock lx h hl (isFence_of_text ho) hfences (isFence_of_text hc)

/-- **The lines of a step are read as the step and what stands below it.** -/
theorem lexed_step (lx : Lexer) (h : s.Writable files names)
    (hl : ls.map (·.text) = lay.stepLines s) (hrest : s.below = [] → Fenceless rest) :
    ∃ ts lx', Lexed lx ls rest ts lx' ∧ ts.map (·.content) = s.contents ∧
      lx'.mode = s.trail.mode := by
  rw [h.stepLines_eq] at hl
  obtain ⟨l, ls, rfl, htext, hls⟩ := List.map_eq_cons_iff.1 hl
  rw [Step.below, List.flatMap_append, List.flatMap_map, List.flatMap_map] at hls
  obtain ⟨ls, ls', rfl, hls, hls'⟩ := List.map_eq_append_iff.1 hls
  have hfence : s.block? = none → Fenceless (ls' ++ rest) := by
    intro hb
    cases ht : s.table? with
    | none =>
      rw [ht] at hls'
      obtain rfl : ls' = [] := List.map_eq_nil_iff.1 hls'
      exact hrest (by rw [Step.below, hb, ht]; rfl)
    | some t =>
      rw [ht, Option.toList_some, List.flatMap_singleton] at hls'
      exact fenceless_table (h.table t ht).1.legible hls' rest
  obtain ⟨t, lx', hlexed, hcontent, hmode⟩ := lexed_upToTable lx h htext hls hfence
  rw [Step.contents, Step.trail]
  cases ht : s.table? with
  | none =>
    rw [ht] at hls'
    obtain rfl : ls' = [] := List.map_eq_nil_iff.1 hls'
    rw [List.append_nil]
    exact ⟨[t], lx', hlexed, congrArg (List.cons · []) hcontent, hmode⟩
  | some table =>
    rw [ht, Option.toList_some, List.flatMap_singleton] at hls'
    obtain ⟨ts, lx'', hlexed', hcontents, hmode'⟩ :=
      lexed_table lx' rest (h.table table ht).1.legible hls' (by simp [hmode]) (by simp [hmode])
    refine ⟨t :: ts, lx'', hlexed.trans hlexed', ?_, hmode'⟩
    rw [List.map_cons, hcontent, hcontents]
    rfl

end

end Lexer

end ScenarioBook
