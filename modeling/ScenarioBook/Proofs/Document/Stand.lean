import ScenarioBook.Proofs.Document.Seat
import ScenarioBook.Proofs.Token.Rows

/-!
# How a step stands among the tokens below it

A `Stand` follows one step through the tokens below its line: whether a header that comes next is
its own, and the lines of the tables that went to it so far. It is computed from the tokens alone
(`Stand.next`), while the builder finds the step again each time. The two agree:
`Builder.Stands.accept` keeps the agreement for one token, and in an accepted source each step has
the tables of its stand (`Document.stand_of_parse`).
-/

set_option autoImplicit false

namespace ScenarioBook

/-- A step as the tokens below it see it. -/
structure Stand where
  current : Section
  /-- outside the teardown, tables go to the step -/
  isOpen : Bool
  /-- in the teardown, tables go to the step -/
  isLast : Bool
  /-- rows go to the last table of the step -/
  tableOpen : Bool
  tables : List TableLines

namespace Stand

/-- The next header is one of the step. -/
def takes (st : Stand) : Bool := if st.current = .tearDown then st.isLast else st.isOpen

/-- The tables with one more line below the last one. -/
def addRow (tables : List TableLines) (t : Token) : List TableLines :=
  updateLast (fun lines => some { lines with rows := lines.rows ++ [t] }) tables

/-- The step below its own line, in the section that is open there. -/
def start (current : Section) : Stand :=
  ⟨current, current != .tearDown, current == .tearDown, false, []⟩

/-- One token below the step. -/
def next (st : Stand) (t : Token) : Stand :=
  match t.content with
  | .tableHeader _ _ =>
    if st.takes then { st with tableOpen := true, tables := st.tables ++ [⟨t, []⟩] } else st
  | .tableRow _ _ =>
    if st.tableOpen then { st with tables := addRow st.tables t } else { st with isOpen := false }
  | .dataTable _ => st
  | .step _ _ _ =>
    { st with isOpen := false, isLast := st.isLast && st.current != .tearDown, tableOpen := false }
  | _ => { st with current := st.current.next t, isOpen := false, tableOpen := false }

theorem addRow_concat (tables : List TableLines) (lines : TableLines) (t : Token) :
    addRow (tables ++ [lines]) t = tables ++ [{ lines with rows := lines.rows ++ [t] }] :=
  updateLast_concat rfl

end Stand

namespace Builder

open Document

/-- The step is the own one of its line with these tables. -/
def Built (files : FileSource) (own : Step) (lines : List TableLines) (s : Step) : Prop :=
  ∃ tables, List.Forall₂ (TableLines.Gives (Token.rowCells files)) lines tables ∧
    s = tables.foldl Step.addInlineTable own

section
variable {files : FileSource} {own s : Step} {lines : List TableLines} {t : Token} {row : Text}
  {cells : List Text}

theorem Built.addTable (h : Built files own lines s) (hc : t.content = .tableHeader row cells)
    (hn : Row.Names cells) :
    Built files own (lines ++ [⟨t, []⟩])
      (s.addInlineTable ((Table.empty t.lineNo).addHeaders cells)) := by
  obtain ⟨tables, htables, rfl⟩ := h
  refine ⟨tables ++ [(Table.empty t.lineNo).addHeaders cells],
    List.rel_append htables (.cons (TableLines.gives_header hc hn) .nil), ?_⟩
  rw [List.foldl_append]
  rfl

/-- A line below the last table that changes it in step with the tokens. -/
theorem Built.below {f : Step → Step} {g : Table → Table} (h : Built files own lines s)
    (hne : lines ≠ [])
    (hf : ∀ s table, f (Step.addInlineTable s table) = s.addInlineTable (g table))
    (hg : ∀ lines table, TableLines.Gives (Token.rowCells files) lines table →
      TableLines.Gives (Token.rowCells files) { lines with rows := lines.rows ++ [t] } (g table)) :
    Built files own (Stand.addRow lines t) (f s) := by
  obtain ⟨tables, htables, rfl⟩ := h
  obtain ⟨earlier, last, rfl⟩ := List.eq_nil_or_concat' lines |>.resolve_left hne
  rw [Stand.addRow_concat]
  cases tables using List.reverseRecOn with
  | nil => cases List.append_eq_nil_iff.1 (List.forall₂_nil_right_iff.1 htables) |>.2
  | append_singleton tables table =>
    obtain ⟨hearlier, hlast⟩ :
        List.Forall₂ (TableLines.Gives (Token.rowCells files)) earlier tables ∧
        TableLines.Gives (Token.rowCells files) last table := by
      have hrev := List.forall₂_reverse_iff.2 htables
      rw [List.reverse_append, List.reverse_append] at hrev
      obtain ⟨hlast, hearlier⟩ := List.forall₂_cons.1 hrev
      exact ⟨List.forall₂_reverse_iff.1 hearlier, hlast⟩
    refine ⟨tables ++ [g table], List.rel_append hearlier (.cons (hg last table hlast) .nil), ?_⟩
    rw [List.foldl_append, List.foldl_append]
    exact hf _ table

end

/-! ## The builder below the heading -/

/-- What holds below the heading, if no teardown marker stands before it or the context is over. -/
structure Sound (seen : List Token) (b : Builder) : Prop where
  placed : b.Placed
  filing : b.Filing seen
  marked : b.place.current = .tearDown → b.document.tearDown?.isSome
  unmarked : b.place.current = .context → b.document.tearDown? = none
  headed : b.place.current ≠ .preamble

/-- The builder has the step of the line `no` with the tables of its stand, and table lines go to it
as the stand says. -/
structure Stands (files : FileSource) (own : Step) (no : Nat) (st : Stand) (b : Builder) :
    Prop where
  current : b.place.current = st.current
  isOpen : st.current ≠ .tearDown →
    (st.isOpen = true ↔ b.place.stepOpen = true ∧ b.openLine? = some no)
  isLast : st.isLast = true ↔ b.document.tearDownLine? = some no
  tableOpen : st.tableOpen = true ↔ st.takes = true ∧ b.place.tableOpen = true
  nonempty : st.tableOpen = true → st.tables ≠ []
  built : ∃ s, b.document.stepsAt no = [s] ∧ Built files own st.tables s

section
variable {files : FileSource} {own : Step} {no : Nat} {st : Stand} {seen : List Token}
  {b b' : Builder} {t : Token}

theorem Sound.not_stranded (h : b.Sound seen) : ¬ b.Stranded := fun hs => by
  have hmarked := hs.marked
  rw [h.unmarked hs.current] at hmarked
  cases hmarked

theorem Stands.takes_iff (h : b.Stands files own no st) : st.takes = true ↔ b.Hosts no := by
  unfold Stand.takes Hosts
  rw [h.current]
  split
  case isTrue => exact h.isLast
  case isFalse hcur => exact h.isOpen hcur

/-! ### The builder at a table line -/

/-- The step on a line that takes tables is found. -/
theorem Hosts.exists_openStep (h : b.Hosts no) :
    ∃ tree, b.openStep? = some tree ∧ tree.step.lineNo = no := by
  unfold Hosts at h
  split at h
  case isTrue hcur => exact Option.map_eq_some_iff.1 ((openLine?_of_tearDown hcur).trans h)
  case isFalse => exact Option.map_eq_some_iff.1 h.2

theorem Hosts.receives (h : b.Hosts no) :
    b.place.stepOpen = true ∨
      b.place.current = .tearDown ∧ b.document.latestTearDownStep?.isSome := by
  unfold Hosts at h
  split at h
  case isTrue hcur =>
    obtain ⟨tree, htree, -⟩ := Option.map_eq_some_iff.1 h
    exact .inr ⟨hcur, by rw [htree]; rfl⟩
  case isFalse => exact .inl h.1

/-- A header goes to the step that takes tables. -/
theorem Hosts.accept_header (h : b.Hosts no) (hp : b.place.current ≠ .preamble) {row : Text}
    {cells : List Text} (hc : t.content = .tableHeader row cells) :
    b.accept files t =
      { b.mapOpenStep (·.addInlineTable ((Table.empty t.lineNo).addHeaders cells)) with
        place := { b.place with tableOpen := true } } := by
  simp only [accept, hc, tableHeader]
  split
  case h_1 hcur => exact absurd hcur hp
  case h_3 hcur =>
    rw [Hosts, if_pos hcur] at h
    obtain ⟨tree, htree, -⟩ := Option.map_eq_some_iff.1 h
    rw [htree, Option.isSome_some, if_pos rfl]
    rfl
  case h_2 hcur | h_4 hcur =>
    rw [Hosts, if_neg (by rw [hcur]; decide)] at h
    rw [if_pos h.1]
    rfl

/-- A row goes to the open table of the step that takes tables. -/
theorem Hosts.accept_row (h : b.Hosts no) {row : Text} {cells : List Text}
    (hc : t.content = .tableRow row cells) (hopen : b.place.tableOpen = true)
    (hclean : Clean (b.accept files t).diagnostics) :
    b.accept files t =
      if t.isSeparator then b else b.mapOpenStep (·.addInlineRow (t.rowCells files)) := by
  have hargs : t.args = cells := by rw [Token.args, hc]
  have hcells : t.rowCells files = (t.readRow b.frame files cells).1 := by
    rw [Token.rowCells, hargs]
    exact t.fst_readRow _ _ files cells
  have hclosed : (!b.place.tableOpen) = false := by rw [hopen]; rfl
  have hgoes : (b.place.stepOpen || b.place.current == .tearDown) = true := by
    rcases h.receives with hst | ⟨hcur, -⟩ <;> simp [*]
  rw [Token.isSeparator, hargs, hcells]
  simp only [accept, hc, tableRow, hclosed, Bool.false_eq_true, if_false, hgoes,
    if_true] at hclean ⊢
  by_cases hsep : Row.isSeparator cells = true
  · rw [if_pos hsep, if_pos hsep]
  · rw [if_neg hsep] at hclean
    rw [if_neg hsep, if_neg hsep, report_of_allErrors (t.allErrors_readRow b.frame files cells)
      hclean]

theorem accept_row_of_closed {row : Text} {cells : List Text}
    (hc : t.content = .tableRow row cells) (hclosed : b.place.tableOpen = false) :
    b.accept files t = b.comment t := by
  simp only [accept, hc, tableRow, hclosed, Bool.not_false, if_true]

/-! ### One token -/

/-- A token that is no line of the step and no later step leaves its tables and its place in the
teardown. -/
theorem Stands.aside {st' : Stand} (h : b.Stands files own no st) (hb : b.Sound seen)
    (ha : b.Accepts files t b') (ht : t.isStep = false)
    (hat : b'.document.stepsAt no = b.document.stepsAt no) (hlast : st'.isLast = st.isLast)
    (htables : st'.tables = st.tables) (hcurrent : st'.current = st.current.next t)
    (hopen : st'.current ≠ .tearDown →
      (st'.isOpen = true ↔ b'.place.stepOpen = true ∧ b'.openLine? = some no))
    (htable : st'.tableOpen = true ↔ st'.takes = true ∧ b'.place.tableOpen = true)
    (hstill : st'.tableOpen = true → st.tableOpen = true) : b'.Stands files own no st' where
  current := by rw [hcurrent, ← h.current]; exact current_accepts hb.filing ha
  isOpen := hopen
  isLast := by rw [hlast, h.isLast, (ha.seat hb.placed hb.not_stranded ht).1]
  tableOpen := htable
  nonempty hst := by rw [htables]; exact h.nonempty (hstill hst)
  built := by rw [hat, htables]; exact h.built

/-- A token that closes the open step and the open table. -/
theorem Stands.close {st' : Stand} (h : b.Stands files own no st) (hb : b.Sound seen)
    (ha : b.Accepts files t b') (ht : t.isStep = false)
    (hat : b'.document.stepsAt no = b.document.stepsAt no)
    (hst : st' = { st with current := st.current.next t, isOpen := false, tableOpen := false })
    (hopen : b'.place.stepOpen = false) (htable : b'.place.tableOpen = false) :
    b'.Stands files own no st' := by
  subst hst
  exact h.aside hb ha ht hat rfl rfl rfl (fun _ => by simp [hopen]) (by simp [htable])
    fun hst => by cases hst

/-- A table line that goes elsewhere. -/
theorem Stands.elsewhere (h : b.Stands files own no st) (hb : b.Sound seen)
    (ha : b.Accepts files t b') (ht : t.isTableLine) (hline : t.lineNo ≠ no)
    (hno : ¬ b.Hosts no) : b'.Stands files own no (st.next t) := by
  have htakes : st.takes = false := Bool.eq_false_iff.2 (mt h.takes_iff.1 hno)
  have hclosed : st.tableOpen = false :=
    Bool.eq_false_iff.2 fun ho => hno (h.takes_iff.1 (h.tableOpen.1 ho).1)
  have hat := ha.stepsAt hb.placed hb.not_stranded hline fun _ => hno
  have hisOpen : st.current ≠ .tearDown → st.isOpen = false := by
    intro hne
    rwa [Stand.takes, if_neg hne] at htakes
  have hstep : t.isStep = false := by
    unfold Token.isTableLine at ht
    unfold Token.isStep
    split <;> simp_all
  -- outside the teardown the step was not open, and no table line opens it
  have hopen : st.current ≠ .tearDown →
      ¬ (b'.place.stepOpen = true ∧ b'.openLine? = some no) := by
    intro hne ⟨hst, hl⟩
    obtain ⟨hst', -, hl'⟩ := (ha.seat hb.placed hb.not_stranded hstep).2 hst
    exact hno (by rw [Hosts, if_neg (h.current ▸ hne)]; exact ⟨hst', hl'.symm.trans hl⟩)
  cases hc : t.content with
  | tableHeader row cells =>
    have hnext : st.next t = st := by simp [Stand.next, hc, htakes]
    rw [hnext]
    exact h.aside hb ha hstep hat rfl rfl (by rw [Section.next, hc])
      (fun hne => iff_of_false (by simp [hisOpen hne]) (hopen hne)) (by simp [hclosed, htakes]) id
  | tableRow row cells =>
    have hnext : st.next t = { st with isOpen := false } := by simp [Stand.next, hc, hclosed]
    have htakes' : ({ st with isOpen := false } : Stand).takes = false := by
      unfold Stand.takes at htakes ⊢
      split at htakes
      case isTrue hcur => rwa [if_pos hcur]
      case isFalse hcur => rw [if_neg hcur]
    rw [hnext]
    exact h.aside hb ha hstep hat rfl rfl (by rw [Section.next, hc])
      (fun hne => iff_of_false Bool.false_ne_true (hopen hne))
      (iff_of_false (by simp [hclosed]) fun ho => Bool.false_ne_true (htakes' ▸ ho.1)) id
  | _ => rw [Token.isTableLine, hc] at ht; cases ht

/-- A header of the step. -/
theorem Stands.header (h : b.Stands files own no st) (hb : b.Sound seen) {row : Text}
    {cells : List Text} (hc : t.content = .tableHeader row cells) (hn : t.Named)
    (hhost : b.Hosts no) : (b.accept files t).Stands files own no (st.next t) := by
  have hnames : Row.Names cells := by rwa [Token.Named, hc] at hn
  have htakes := h.takes_iff.2 hhost
  obtain ⟨tree, htree, hline⟩ := hhost.exists_openStep
  obtain ⟨s, hs, hbuilt⟩ := h.built
  have hnext : st.next t = { st with tableOpen := true, tables := st.tables ++ [⟨t, []⟩] } := by
    simp [Stand.next, hc, htakes]
  rw [hnext, hhost.accept_header hb.headed hc]
  refine ⟨h.current, fun hne => ?_, ?_, iff_of_true rfl ⟨htakes, rfl⟩, fun _ => by simp, ?_⟩
  · have hopen := openLine?_mapOpenStep (f := (·.addInlineTable
      ((Table.empty t.lineNo).addHeaders cells))) (fun _ => rfl) htree
    exact (h.isOpen hne).trans (and_congr_right fun _ => by rw [← hopen]; rfl)
  · rw [h.isLast, ← tearDownLine?_of_seats (seats_mapOpenStep (b := b)
      (f := (·.addInlineTable ((Table.empty t.lineNo).addHeaders cells))) fun _ => rfl)]
  · exact ⟨_, stepsAt_mapOpenStep_of_eq (f := (·.addInlineTable
      ((Table.empty t.lineNo).addHeaders cells))) (fun _ => rfl) htree hline hs,
      hbuilt.addTable hc hnames⟩

/-- A row while the step takes tables. -/
theorem Stands.row (h : b.Stands files own no st) (hb : b.Sound seen) {row : Text}
    {cells : List Text} (hc : t.content = .tableRow row cells) (hhost : b.Hosts no)
    (hclean : Clean (b.accept files t).diagnostics) :
    (b.accept files t).Stands files own no (st.next t) := by
  have htakes := h.takes_iff.2 hhost
  obtain ⟨tree, htree, hline⟩ := hhost.exists_openStep
  obtain ⟨s, hs, hbuilt⟩ := h.built
  by_cases hopen : b.place.tableOpen = true
  · have hst : st.tableOpen = true := h.tableOpen.2 ⟨htakes, hopen⟩
    have hne := h.nonempty hst
    have hnext : st.next t = { st with tables := Stand.addRow st.tables t } := by
      simp [Stand.next, hc, hst]
    have hrows : Stand.addRow st.tables t ≠ [] := by
      obtain ⟨earlier, last, heq⟩ := (List.eq_nil_or_concat' st.tables).resolve_left hne
      simp [heq, Stand.addRow_concat]
    rw [hnext, hhost.accept_row hc hopen hclean]
    by_cases hsep : t.isSeparator = true
    · rw [if_pos hsep]
      exact ⟨h.current, h.isOpen, h.isLast, h.tableOpen, fun _ => hrows, s, hs,
        hbuilt.below (f := id) (g := id) hne (fun _ _ => rfl) fun _ _ hg => hg.skip hc hsep⟩
    · rw [if_neg hsep]
      have hf : ∀ s : Step, (s.addInlineRow (t.rowCells files)).lineNo = s.lineNo :=
        fun s => Step.lineNo_addInlineRow s _
      refine ⟨h.current, fun hne' => ?_, ?_, h.tableOpen, fun _ => hrows, _,
        stepsAt_mapOpenStep_of_eq hf htree hline hs, hbuilt.below
          (f := (·.addInlineRow (t.rowCells files))) hne
          (fun s table => Step.addInlineRow_addInlineTable s table _)
          fun _ _ hg => hg.add hc (Bool.eq_false_iff.2 hsep)⟩
      · rw [openLine?_mapOpenStep hf htree]
        exact h.isOpen hne'
      · rw [h.isLast, tearDownLine?_of_seats (seats_mapOpenStep (b := b) hf)]
  · have hclosed : b.place.tableOpen = false := Bool.eq_false_iff.2 hopen
    have hst : st.tableOpen = false := Bool.eq_false_iff.2 fun ho => hopen (h.tableOpen.1 ho).2
    have ha := accepts_accept hclean
    rw [accept_row_of_closed hc hclosed] at ha ⊢
    refine h.close hb ha (by rw [Token.isStep, hc]) ?_ ?_ rfl rfl
    · exact stepsAt_congr (steps_add_of_none hb.placed (i := .comment _) rfl rfl) no
    · simp [Stand.next, hc, hst, Section.next]

/-- A later step. -/
theorem Stands.step (h : b.Stands files own no st) (hb : b.Sound seen)
    (ha : b.Accepts files t b') {value : Text} {args : List RawArg} {block : Option Text}
    (hc : t.content = .step value args block) (hline : t.lineNo ≠ no) :
    b'.Stands files own no (st.next t) := by
  obtain ⟨hplace, hopen, hlast⟩ := ha.seat_step hb.placed hc hb.headed hb.unmarked hb.marked
  have hother : b'.openLine? ≠ some no := by
    rw [hopen]
    exact fun heq => hline (Option.some.inj heq)
  have hnext : st.next t = ⟨st.current, false, st.isLast && st.current != .tearDown, false,
      st.tables⟩ := by rw [Stand.next, hc]
  have hcur : b'.place.current = st.current := by rw [hplace]; exact h.current
  rw [hnext]
  refine ⟨hcur, fun _ => by simp [hother], ?_, by simp [hplace], fun hst => (by cases hst), ?_⟩
  · by_cases htear : st.current = .tearDown
    · have hmoved : b'.document.tearDownLine? ≠ some no := by
        rw [← openLine?_of_tearDown (hcur.trans htear)]
        exact hother
      simp [htear, hmoved]
    · rw [hlast (h.current ▸ htear)]
      simpa [htear] using h.isLast
  · rw [ha.stepsAt hb.placed hb.not_stranded hline fun hl => by
      rw [Token.isTableLine, hc] at hl; cases hl]
    exact h.built

/-- A heading that is accepted closes what is open. -/
theorem Accepts.place_of_heading (ha : b.Accepts files t b') {kind : HeadingKind} {title : Text}
    (hc : t.content = .heading kind title) :
    b'.place.stepOpen = false ∧ b'.place.tableOpen = false := by
  cases ha with
  | heading | scenario => exact ⟨rfl, rfl⟩
  | kept hk => rw [Token.Keepable, hc] at hk; exact hk.elim
  | early hc' | step hc' | attach hc' | openData hc' | separator hc' | row hc' | dataRow hc'
  | tags hc' | reference hc' | tearDown hc' => cases hc.symm.trans hc'

/-- A `table:` line leaves open what is open. -/
theorem place_dataTable (path : Text) : (b.dataTable files t path).place = b.place := by
  unfold dataTable
  split
  · rfl
  · split
    · rfl
    · split <;> rfl

/-- **One token keeps the agreement** of the builder with the stand. -/
theorem Stands.accept (h : b.Stands files own no st) (hb : b.Sound seen) (hn : t.Named)
    (hline : t.lineNo ≠ no) (hclean : Clean (b.accept files t).diagnostics) :
    (b.accept files t).Stands files own no (st.next t) := by
  have ha := accepts_accept hclean
  have hother : t.isTableLine = false →
      (b.accept files t).document.stepsAt no = b.document.stepsAt no := fun ht =>
    ha.stepsAt hb.placed hb.not_stranded hline fun hl => by rw [ht] at hl; cases hl
  cases hc : t.content with
  | heading kind title =>
    obtain ⟨hopen, htable⟩ := ha.place_of_heading hc
    exact h.close hb ha (by rw [Token.isStep, hc]) (hother (by rw [Token.isTableLine, hc]))
      (by rw [Stand.next, hc]) hopen htable
  | comment text =>
    have haccept : b.accept files t = b.comment t := by rw [Builder.accept, hc]
    exact h.close hb ha (by rw [Token.isStep, hc]) (hother (by rw [Token.isTableLine, hc]))
      (by rw [Stand.next, hc]) (by rw [haccept]; rfl) (by rw [haccept]; rfl)
  | tags text values =>
    have haccept : b.accept files t = b.tags t values := by rw [Builder.accept, hc]
    exact h.close hb ha (by rw [Token.isStep, hc]) (hother (by rw [Token.isTableLine, hc]))
      (by rw [Stand.next, hc]) (by rw [haccept]; rfl) (by rw [haccept]; rfl)
  | tearDown marker =>
    have haccept : b.accept files t = b.tearDown t marker := by rw [Builder.accept, hc]
    exact h.close hb ha (by rw [Token.isStep, hc]) (hother (by rw [Token.isTableLine, hc]))
      (by rw [Stand.next, hc]) (by rw [haccept]; rfl) (by rw [haccept]; rfl)
  | step value args block => exact h.step hb ha hc hline
  | tableHeader row cells =>
    by_cases hhost : b.Hosts no
    · exact h.header hb hc hn hhost
    · exact h.elsewhere hb ha (by rw [Token.isTableLine, hc]) hline hhost
  | tableRow row cells =>
    by_cases hhost : b.Hosts no
    · exact h.row hb hc hhost hclean
    · exact h.elsewhere hb ha (by rw [Token.isTableLine, hc]) hline hhost
  | dataTable path =>
    have hstep : t.isStep = false := by rw [Token.isStep, hc]
    have hplace : (b.accept files t).place = b.place := by
      rw [Builder.accept, hc]
      exact place_dataTable path
    have hnext : st.next t = st := by rw [Stand.next, hc]
    rw [hnext]
    refine h.aside hb ha hstep (hother (by rw [Token.isTableLine, hc])) rfl rfl
      (by rw [Section.next, hc]) (fun hne => ?_) (by rw [hplace]; exact h.tableOpen) id
    rw [h.isOpen hne, hplace]
    refine and_congr_right fun hopen => ?_
    rw [((ha.seat hb.placed hb.not_stranded hstep).2 (hplace ▸ hopen)).2.2]

end

/-! ## All tokens -/

/-- What the builder keeps from the first token on. -/
structure Steady (seen : List Token) (b : Builder) : Prop where
  placed : b.Placed
  filing : b.Filing seen
  arranged : b.Arranged
  timely : b.Timely seen
  current : b.place.current = Token.sectionAfter seen

section
variable {files : FileSource} {seen : List Token} {b b' : Builder} {t : Token}

theorem steady_start (fileName : Text) : (start fileName).Steady [] :=
  ⟨placed_start _, filing_start _, arranged_start _, timely_start _, rfl⟩

theorem Steady.accepts (h : b.Steady seen) (ha : b.Accepts files t b') :
    b'.Steady (seen ++ [t]) :=
  ⟨h.placed.accepts ha, h.filing.accepts ha, h.arranged.accepts ha, h.timely.accepts h.arranged ha,
    sectionAfter_accepts h.current h.filing ha⟩

theorem Steady.sound (h : b.Steady seen)
    (hmarkers : Token.sectionAfter seen = .context →
      ∀ m ∈ Token.beforeHeading seen, m.isTearDown = false)
    (hhead : Token.sectionAfter seen ≠ .preamble) : b.Sound seen where
  placed := h.placed
  filing := h.filing
  marked := h.arranged.marked
  unmarked hcur := by
    cases hm : b.document.tearDown? with
    | none => rfl
    | some marker =>
      obtain ⟨m, hin, hmarker⟩ := h.timely.marked (.inr hcur) (by rw [hm]; rfl)
      rw [hmarkers (h.current ▸ hcur) m hin] at hmarker
      cases hmarker
  headed := h.current ▸ hhead

/-- A line that the tokens so far do not stand on has no steps yet. -/
theorem Filing.stepsAt_eq_nil (h : b.Filing seen) {no : Nat}
    (hno : ∀ u ∈ seen, u.lineNo ≠ no) : b.document.stepsAt no = [] := by
  refine List.filter_eq_nil_iff.2 fun s hs hline => ?_
  obtain ⟨tree, htree, rfl⟩ := List.mem_map.1 hs
  rw [steps_eq_flat] at htree
  obtain ⟨i, hi, hstep⟩ := List.mem_filterMap.1 htree
  have hmem : i.lineNo ∈ b.document.lines := List.mem_map_of_mem hi
  obtain ⟨u, hu, heq⟩ := List.mem_map.1 (h.lines.subset hmem)
  refine hno u hu (heq.trans ?_)
  cases i <;> cases hstep
  exact beq_iff_eq.1 hline

theorem tearDownLine?_ne_of_stepsAt {d : Document} {no : Nat} (h : d.stepsAt no = []) :
    d.tearDownLine? ≠ some no := by
  intro hlast
  obtain ⟨tree, htree, hline⟩ := Option.map_eq_some_iff.1 hlast
  obtain ⟨i, hi, hstep⟩ := List.mem_filterMap.1 (List.mem_of_getLast? htree)
  have hitem : i ∈ d.items := (List.dropWhile_suffix _).subset hi
  have htree' : tree ∈ d.steps := by
    refine List.mem_flatMap.2 ⟨i, hitem, ?_⟩
    cases i <;> cases hstep
    exact List.mem_singleton_self _
  exact List.filter_eq_nil_iff.1 h _ (List.mem_map_of_mem htree') (beq_iff_eq.2 hline)

/-- A step stands where its token stands. -/
theorem Sound.stands_step (hb : b.Sound seen) (ha : b.Accepts files t b') {value : Text}
    {args : List RawArg} {block : Option Text} (hc : t.content = .step value args block)
    (hno : ∀ u ∈ seen, u.lineNo ≠ t.lineNo) :
    b'.Stands files (t.readStep .empty files value args block).1 t.lineNo
      (.start b.place.current) := by
  obtain ⟨hplace, hopen, hlast⟩ := ha.seat_step hb.placed hc hb.headed hb.unmarked hb.marked
  have hnil := hb.filing.stepsAt_eq_nil hno
  have hcur : b'.place.current = b.place.current := by rw [hplace]
  refine ⟨hcur, fun hne => ?_, ?_, ?_, fun hst => (by cases hst), _, ?_, [], .nil, rfl⟩
  · simp [hplace, hopen, Stand.start]
  · by_cases htear : b.place.current = .tearDown
    · rw [← openLine?_of_tearDown (hcur.trans htear), hopen]
      simp [Stand.start, htear]
    · rw [hlast htear]
      simp [Stand.start, htear, tearDownLine?_ne_of_stepsAt hnil]
  · simp [hplace, Stand.start]
  · have hsteps : b'.document.steps =
        b.document.steps ++ [.ofStep (t.readStep .empty files value args block).1] := by
      rw [ha.eq_of_step hc hb.headed, t.fst_readStep b.frame .empty]
      exact steps_add hb.placed (i := .step _) rfl
    have hline : ((t.readStep .empty files value args block).1.lineNo == t.lineNo) = true := by
      rw [lineNo_readStep]
      exact beq_self_eq_true _
    rw [stepsAt, hsteps, List.map_append, List.filter_append, ← stepsAt, hnil]
    simp [StepTree.ofStep, StepTree.step, hline]

/-- The context is entered from the preamble only. -/
theorem Accepts.current_eq_context (ha : b.Accepts files t b') (hfiling : b.Filing seen)
    (hp : b.place.current ≠ .preamble) (hcur : b'.place.current = .context) :
    b.place.current = .context := by
  cases ha with
  | heading hc hnone =>
    have hsome := hfiling.headed.2 hp
    rw [hnone] at hsome
    cases hsome
  | scenario => cases hcur
  | tearDown hc =>
    dsimp only [enter] at hcur
    split at hcur <;> cases hcur
  | kept hk hplace => rcases hplace with rfl | rfl <;> exact hcur
  | early | step | attach | openData | separator | row | dataRow | tags | reference => exact hcur

/-- **All tokens below a step** keep the agreement. -/
theorem Stands.foldl {own : Step} {no : Nat} {st : Stand} {rest : List Token}
    (h : b.Stands files own no st) (hsteady : b.Steady seen)
    (hhead : Token.sectionAfter seen ≠ .preamble)
    (hmarkers : Token.sectionAfter seen = .context →
      ∀ m ∈ Token.beforeHeading (seen ++ rest), m.isTearDown = false)
    (hnamed : ∀ u ∈ rest, u.Named) (hlines : ∀ u ∈ rest, u.lineNo ≠ no)
    (hclean : Clean (rest.foldl (Builder.accept files) b).diagnostics) :
    (rest.foldl (Builder.accept files) b).Stands files own no (rest.foldl Stand.next st) := by
  induction rest generalizing b seen st with
  | nil => exact h
  | cons u rest ih =>
    obtain ⟨hn, hnamed⟩ := List.forall_mem_cons.1 hnamed
    obtain ⟨hline, hlines⟩ := List.forall_mem_cons.1 hlines
    have hu := clean_of_foldl (b := b.accept files u) hclean
    have ha := accepts_accept hu
    have hsteady' := hsteady.accepts ha
    have hsound := hsteady.sound
      (fun hcur m hm => hmarkers hcur m (Token.mem_beforeHeading_append hm _)) hhead
    refine ih (h.accept hsound hn hline hu) hsteady' ?_ (fun hcur => ?_) hnamed hlines hclean
    · rw [Token.sectionAfter_concat]
      exact fun hpre => hhead ((Token.next_eq_preamble_iff _).1 hpre).1
    · rw [List.append_assoc, List.singleton_append]
      refine hmarkers ?_
      rw [← hsteady.current]
      exact ha.current_eq_context hsteady.filing hsound.headed (hsteady'.current.trans hcur)

end

end Builder

namespace Document

/-- **Each step has the tables of its stand.** In an accepted source the step of a step token below
the heading is the one of its line, with the tables that its stand collects from the tokens below
it, unless it is a context step and a teardown marker stands before the heading. -/
theorem stand_of_parse {source fileName : Text} {tokens before after : List Token} {t : Token}
    {dictionary : Dictionary} {files : FileSource} {parsed : Parsed Document} {value : Text}
    {args : List RawArg} {block : Option Text} (htok : tokenize source = .ok tokens)
    (h : Document.parse source fileName dictionary files = .ok parsed)
    (hsplit : tokens = before ++ t :: after) (hc : t.content = .step value args block)
    (hhead : Token.sectionAfter before ≠ .preamble)
    (hmarkers : Token.sectionAfter before = .context →
      ∀ m ∈ Token.beforeHeading tokens, m.isTearDown = false) :
    ∃ s, parsed.document.stepsAt t.lineNo = [s] ∧
      Builder.Built files (t.readStep .empty files value args block).1
        (after.foldl Stand.next (.start (Token.sectionAfter before))).tables s := by
  obtain ⟨tokens', read, htok', hread, rfl⟩ := parse_eq_ok_expand h
  cases htok.symm.trans htok'
  obtain ⟨hclean, rfl⟩ := ofTokens_eq_ok_run hread
  subst hsplit
  have hnamed := Token.named_of_tokenize htok
  have hord := Token.pairwise_lineNo_of_tokenize htok
  obtain ⟨-, hafter, hbefore⟩ := List.pairwise_append.1 hord
  obtain ⟨hafter, -⟩ := List.pairwise_cons.1 hafter
  rw [List.foldl_append, List.foldl_cons] at hclean ⊢
  have hstep := Builder.clean_of_foldl hclean
  -- the builder at the step, and then at each token below it
  have hsteady : Builder.Steady ([] ++ before)
      (before.foldl (Builder.accept files) (.start fileName)) :=
    Builder.inv_of_clean (motive := fun seen b => b.Steady seen)
      (Builder.clean_of_accept hstep) (Builder.steady_start fileName)
      fun _ hb hc => hb.accepts (Builder.accepts_accept hc)
  rw [List.nil_append] at hsteady
  have hsound := hsteady.sound
    (fun hcur m hm => hmarkers hcur m (Token.mem_beforeHeading_append hm _)) hhead
  have ha := Builder.accepts_accept hstep
  have hstands := hsound.stands_step ha hc
    fun u hu => (hbefore u hu t List.mem_cons_self).ne
  rw [hsteady.current] at hstands
  obtain ⟨s, hs, hbuilt⟩ := (hstands.foldl (hsteady.accepts ha)
    (by
      rw [Token.sectionAfter_concat]
      exact fun hpre => hhead ((Token.next_eq_preamble_iff _).1 hpre).1)
    (fun hcur => by
      rw [List.append_assoc, List.singleton_append]
      refine hmarkers ?_
      rw [← hsteady.current]
      exact ha.current_eq_context hsteady.filing hsound.headed
        ((hsteady.accepts ha).current.trans hcur))
    (fun u hu => hnamed u (by simp [hu])) (fun u hu => (hafter u hu).ne') hclean).built
  exact ⟨s, (stepsAt_mapSteps dictionary.step_expand _).trans hs, hbuilt⟩

end Document

end ScenarioBook
