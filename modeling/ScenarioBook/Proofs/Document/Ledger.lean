import ScenarioBook.Proofs.Document.Moves
import ScenarioBook.Proofs.Document.WellFormed

/-!
# What the builder keeps and what it drops

While it takes tokens the builder keeps a division of those it has seen among the heading, the
entries of the items and the tokens it dropped (`Builder.Ledger`). A token that makes an item is an
entry of its own (`Builder.Accounts.push`), a table line goes to the entry of an earlier line
(`Builder.Accounts.attach`), and what is dropped is known (`Token.LostIn`): a step before the
heading of the document, and the lines of a table below a context step if a teardown marker came
before the heading (`Builder.Accounts.lose`). Which of these a token does is decided by the place
(`Builder.Accounts.accepts`).
-/

set_option autoImplicit false

namespace ScenarioBook

namespace Token

/-- Why a token can be gone. -/
def LostIn (seen : List Token) (t : Token) : Prop :=
  t.isStep ∧ t ∈ beforeHeading seen ∨
    t.isTableLine ∧ TablesContext seen ∧ ∃ marker ∈ beforeHeading seen, marker.isTearDown

theorem LostIn.append {seen : List Token} {t : Token} (h : t.LostIn seen) (more : List Token) :
    t.LostIn (seen ++ more) :=
  h.imp (fun ⟨hs, hin⟩ => ⟨hs, mem_beforeHeading_append hin more⟩)
    fun ⟨hl, htables, marker, hin, hm⟩ =>
      ⟨hl, htables.append more, marker, mem_beforeHeading_append hin more, hm⟩

end Token

namespace Builder

open Document

section
variable {files : FileSource} {seen : List Token} {b b' : Builder} {t : Token}

/-! ## The open section -/

/-- A token that is accepted opens the section that its kind says. -/
theorem current_accepts (hfiling : b.Filing seen)
    (ha : b.Accepts files t b') : b'.place.current = b.place.current.next t := by
  unfold Section.next
  cases ha with
  | heading hc hnone => rw [hc]; rfl
  | scenario hc hsome hnew =>
    have hcur := hfiling.headed.1 (Option.isSome_iff_ne_none.2 hsome)
    rw [hc]
    simp only [if_neg hcur]
    rfl
  | tearDown hc => rw [hc]; rfl
  | early hc | step hc | attach hc | openData hc | separator hc | row hc | dataRow hc | tags hc
  | reference hc => simp only [hc] <;> rfl
  | kept hk hplace hnoted =>
    unfold Token.Keepable at hk
    split
    case h_1 hc => rw [hc] at hk; exact hk.elim
    case h_2 hc => rw [hc] at hk; exact hk.elim
    case h_3 hc => rw [hc] at hk; exact hk.elim
    case h_4 => rcases hplace with rfl | rfl <;> rfl

/-- The tokens tell the section after one more of them. -/
theorem sectionAfter_accepts (h : b.place.current = Token.sectionAfter seen)
    (hfiling : b.Filing seen) (ha : b.Accepts files t b') :
    b'.place.current = Token.sectionAfter (seen ++ [t]) := by
  rw [Token.sectionAfter_concat, ← h]
  exact current_accepts hfiling ha

end

/-! ## Steps of the context -/

/-- While a step of the context takes tables, the tokens tell that it does: it is the last of them,
or a table has begun below it. -/
structure ContextStep (seen : List Token) (b : Builder) : Prop where
  last : b.place.current = .context → b.place.stepOpen = true → b.place.tableOpen = false →
    Token.endsOn Token.isStep seen = true
  tabled : b.place.current = .context → b.place.stepOpen = true → b.place.tableOpen = true →
    Token.TablesContext seen

section
variable {files : FileSource} {seen : List Token} {b b' : Builder} {t : Token}

theorem ContextStep.of_closed (h : b.place.stepOpen = false) : b.ContextStep seen where
  last _ hopen := by rw [h] at hopen; cases hopen
  tabled _ hopen := by rw [h] at hopen; cases hopen

/-- A token that leaves the place as it is, below an open table or as a `table:` line. -/
theorem ContextStep.of_same (h : b.ContextStep seen) (hp : b'.place = b.place)
    (ht : b.place.tableOpen = true ∨ (b.place.stepOpen = true → t.isReference = true)) :
    b'.ContextStep (seen ++ [t]) where
  last hcur hopen htable := by
    rw [hp] at hcur hopen htable
    rcases ht with ht | href
    · rw [ht] at htable
      cases htable
    · exact Token.endsOn_concat_reference (h.last hcur hopen htable) (href hopen)
  tabled hcur hopen htable := by
    rw [hp] at hcur hopen htable
    exact (h.tabled hcur hopen htable).append [t]

/-- A header below a step of the context begins a table there. -/
theorem ContextStep.tablesContext (h : b.ContextStep seen)
    (hcurrent : b.place.current = Token.sectionAfter seen) (hcur : b.place.current = .context)
    (hopen : b.place.stepOpen = true) (ht : t.isHeader = true) :
    Token.TablesContext (seen ++ [t]) := by
  cases htable : b.place.tableOpen with
  | true => exact (h.tabled hcur hopen htable).append [t]
  | false => exact Token.tablesContext_concat ht (hcurrent ▸ hcur) (h.last hcur hopen htable)

theorem ContextStep.accepts (h : b.ContextStep seen)
    (hcurrent : b.place.current = Token.sectionAfter seen) (ha : b.Accepts files t b') :
    b'.ContextStep (seen ++ [t]) := by
  cases ha with
  | heading | scenario | tags | tearDown => exact .of_closed rfl
  | early hc hp =>
    refine ⟨fun hcur => ?_, fun hcur => ?_⟩ <;> (rw [hp] at hcur; cases hcur)
  | step hc hp =>
    exact ⟨fun _ _ _ => Token.endsOn_concat_of (by rw [Token.isStep, hc]),
      fun _ _ htable => by cases htable⟩
  | kept hk hplace hnoted hstays =>
    rcases hplace with rfl | rfl
    · exact h.of_same rfl (.inr hstays)
    · exact .of_closed rfl
  | attach hc hp hopen =>
    refine ⟨fun _ _ htable => (by cases htable), fun hcur hstep _ => ?_⟩
    exact h.tablesContext hcurrent hcur hstep (by rw [Token.isHeader, hc])
  | openData hc hp hstep hnone => exact .of_closed hstep
  | separator hc hopen hsep | row hc hopen hsep hstep => exact h.of_same rfl (.inl hopen)
  | dataRow hc hopen hsep hstep hp => exact .of_closed hstep
  | reference hc href hp hnone =>
    exact h.of_same rfl (.inr fun _ => by rw [Token.isReference, hc])

end

/-! ## Markers before the heading -/

/-- While no scenario and no teardown is open, headings and markers are known from the tokens. -/
structure Timely (seen : List Token) (b : Builder) : Prop where
  preamble : b.place.current = .preamble → ∀ t ∈ seen, t.isSpecHeading = false
  marked : b.place.current = .preamble ∨ b.place.current = .context →
    b.document.tearDown?.isSome → ∃ marker ∈ Token.beforeHeading seen, marker.isTearDown

section
variable {files : FileSource} {seen : List Token} {b b' : Builder} {t : Token}

theorem timely_start (fileName : Text) : (start fileName).Timely [] where
  preamble _ _ ht := by cases ht
  marked _ h := by cases h

/-- A token that neither opens a part nor is a marker. -/
theorem Timely.of_same (h : b.Timely seen) (hp : b'.place.current = b.place.current)
    (hm : b'.document.tearDown?.isSome → b.document.tearDown?.isSome)
    (ht : t.isSpecHeading = false) : b'.Timely (seen ++ [t]) where
  preamble hcur := List.forall_mem_append.2 ⟨h.preamble (hp ▸ hcur), by simpa using ht⟩
  marked hcur hsome := by
    obtain ⟨marker, hin, hmarker⟩ := h.marked (hp ▸ hcur) (hm hsome)
    exact ⟨marker, Token.mem_beforeHeading_append hin _, hmarker⟩

theorem isSome_tearDown?_of_add {i : Item} (hi : i.kind ≠ .tearDown)
    (hs : (b.add i).document.tearDown?.isSome) : b.document.tearDown?.isSome := by
  by_cases hcur : b.place.current = .scenario
  · rw [add_of_scenario hcur] at hs
    exact isSome_tearDown?_of_kinds (kinds_mapLatestScenario _) hs
  · rw [add_of_ne_scenario hcur] at hs
    exact isSome_tearDown?_of_addItem hi hs

theorem Timely.accepts (h : b.Timely seen) (harranged : b.Arranged)
    (ha : b.Accepts files t b') : b'.Timely (seen ++ [t]) := by
  have hother : ∀ {content : Token.Content}, t.content = content →
      (∀ title, content ≠ .heading .spec title) → t.isSpecHeading = false := by
    intro content hc hne
    unfold Token.isSpecHeading
    split
    case h_1 title htitle => exact absurd (hc.symm.trans htitle) (hne title)
    case h_2 => rfl
  cases ha with
  | heading hc hnone =>
    refine ⟨fun hs => (by cases hs), fun _ hsome => ?_⟩
    obtain ⟨marker, hin, hm⟩ := h.marked (.inl (harranged.headless hnone)) hsome
    exact ⟨marker, Token.mem_beforeHeading_append hin _, hm⟩
  | scenario hc hsome hnew =>
    refine ⟨fun hs => (by cases hs), fun hs => ?_⟩
    rcases hs with hs | hs <;> cases hs
  | early hc hp => exact h.of_same rfl id (hother hc (by simp))
  | separator hc hopen hsep => exact h.of_same rfl id (hother hc (by simp))
  | step hc hp =>
    exact h.of_same rfl (isSome_tearDown?_of_add (by simp [Item.kind])) (hother hc (by simp))
  | @kept found place hk hplace hnoted =>
    have ht : t.isSpecHeading = false := by
      unfold Token.Keepable at hk
      unfold Token.isSpecHeading
      split
      case h_1 htitle => rw [htitle] at hk; exact hk.elim
      case h_2 => rfl
    refine h.of_same ?_ (fun hs => ?_) ht
    · rcases hplace with rfl | rfl <;> rfl
    · exact isSome_tearDown?_of_add (b := b.report found) (by simp [Item.kind]) hs
  | attach hc hp hopen =>
    exact h.of_same rfl (isSome_tearDown?_of_kinds (b.sameShape_mapOpenStep _).kinds)
      (hother hc (by simp))
  | openData hc hp hstep hnone =>
    exact h.of_same rfl (isSome_tearDown?_of_addItem (by simp [Item.kind])) (hother hc (by simp))
  | row hc hopen hsep hstep =>
    exact h.of_same rfl (isSome_tearDown?_of_kinds (b.sameShape_mapOpenStep _).kinds)
      (hother hc (by simp))
  | dataRow hc hopen hsep hstep hp =>
    exact h.of_same rfl (isSome_tearDown?_of_kinds (sameShape_mapDataTable _).kinds)
      (hother hc (by simp))
  | tags hc hscenario hnone =>
    exact h.of_same rfl (isSome_tearDown?_of_add (by simp [Item.kind])) (hother hc (by simp))
  | reference hc href hp hnone =>
    exact h.of_same rfl (isSome_tearDown?_of_addItem (by simp [Item.kind])) (hother hc (by simp))
  | tearDown hc =>
    have ht := hother hc (by simp)
    by_cases hp : b.place.current = .preamble
    · -- before the heading the marker opens nothing, and it is the one that contexts stand behind
      refine ⟨fun _ => List.forall_mem_append.2 ⟨h.preamble hp, by simpa using ht⟩, fun _ _ => ?_⟩
      exact ⟨t, Token.mem_beforeHeading_concat (h.preamble hp) ht, by rw [Token.isTearDown, hc]⟩
    · rw [if_neg hp]
      refine ⟨fun hs => (by cases hs), fun hs => ?_⟩
      rcases hs with hs | hs <;> cases hs

/-- The step that is not found is one of the context. -/
theorem Stranded.stepOpen (h : b.Stranded)
    (hwhere : b.place.stepOpen = true ∨ b.place.current = .tearDown) : b.place.stepOpen = true :=
  hwhere.resolve_right (by rw [h.current]; decide)

/-- A table line below a step that is not found is lost for a reason. -/
theorem Timely.lost_of_stranded (h : b.Timely seen) (hs : b.Stranded) (ht : t.isTableLine)
    (htables : Token.TablesContext (seen ++ [t])) : t.LostIn (seen ++ [t]) := by
  obtain ⟨marker, hin, hmarker⟩ := h.marked (.inr hs.current) hs.marked
  exact .inr ⟨ht, htables, marker, Token.mem_beforeHeading_append hin _, hmarker⟩

/-- A row of a table below a step that is not found. -/
theorem Timely.lost_row (h : b.Timely seen) (hs : b.Stranded) (hstep : b.ContextStep seen)
    (hopen : b.place.tableOpen = true)
    (hwhere : b.place.stepOpen = true ∨ b.place.current = .tearDown) (ht : t.isTableLine) :
    t.LostIn (seen ++ [t]) :=
  h.lost_of_stranded hs ht
    ((hstep.tabled hs.current (hs.stepOpen hwhere) hopen).append [t])

end

/-! ## The ledger -/

/-- The token was seen, and if it is a `tags:` line then there is a diagnostic about it. -/
def Filed (seen : List Token) (found : List Diagnostic) (t : Token) : Prop :=
  t ∈ seen ∧ (t.isTags → t.NotedIn found)

/-- The tokens seen so far, divided among the heading, the entries of the items and the lost. -/
structure Ledger (files : FileSource) (seen : List Token) (b : Builder) (heads : List Token)
    (entries : List Entry) (lost : List Token) : Prop where
  heading : heads = [] ∧ b.document.heading = none ∨
    ∃ t title, heads = [t] ∧ t.content = .heading .spec title ∧
      b.document.heading = some ⟨title, t.lineNo, .spec⟩
  records : List.Forall₂ (Entry.Records files (Filed seen b.diagnostics)) entries b.document.flat
  all : (heads ++ entries.flatMap Entry.tokens ++ lost).Perm seen
  order : (entries.map Entry.token).Sublist seen
  below : ∀ e ∈ entries, e.tokens.Sublist seen
  lost : ∀ t ∈ lost, t.LostIn seen

/-- There is a division of the tokens. -/
def Accounts (files : FileSource) (seen : List Token) (b : Builder) : Prop :=
  ∃ heads entries lost, Ledger files seen b heads entries lost

section
variable {files : FileSource} {seen : List Token} {b b' : Builder} {t : Token}

theorem accounts_start (fileName : Text) : Accounts files [] (start fileName) :=
  ⟨[], [], [], .inl ⟨rfl, rfl⟩, .nil, .refl _, List.nil_sublist _,
    fun _ he => (List.not_mem_nil he).elim, fun _ ht => (List.not_mem_nil ht).elim⟩

theorem Filed.mono {found : List Diagnostic} (h : Filed seen found t) (later : List Token)
    (more : List Diagnostic) : Filed (seen ++ later) (found ++ more) t :=
  ⟨List.mem_append_left _ h.1, fun ht => (h.2 ht).append_right more⟩

/-- Items stand for their entries when more tokens and diagnostics come. -/
theorem records_later {entries : List Entry} {items : List Item} {found : List Diagnostic}
    (h : List.Forall₂ (Entry.Records files (Filed seen found)) entries items) (later : List Token)
    (more : List Diagnostic) :
    List.Forall₂ (Entry.Records files (Filed (seen ++ later) (found ++ more))) entries items :=
  h.imp fun _ _ hr => hr.mono fun _ ht => ht.mono later more

theorem tokens_sublist_later {entries : List Entry}
    (h : ∀ e ∈ entries, e.tokens.Sublist seen) (later : List Token) :
    ∀ e ∈ entries, e.tokens.Sublist (seen ++ later) :=
  fun e he => (h e he).trans (List.sublist_append_left _ _)

/-- The token makes an item of its own. -/
theorem Accounts.push (h : Accounts files seen b) {found : List Diagnostic} {e : Entry} {i : Item}
    (hdiag : b'.diagnostics = b.diagnostics ++ found)
    (hheading : b'.document.heading = b.document.heading)
    (hflat : b'.document.flat = b.document.flat ++ [i]) (ht : e.token = t) (hb : e.below = [])
    (hr : e.Records files (Filed (seen ++ [t]) b'.diagnostics) i) :
    Accounts files (seen ++ [t]) b' := by
  obtain ⟨heads, entries, lost, hl⟩ := h
  have htokens : e.tokens = [t] := by rw [Entry.tokens, ht, hb]
  -- the new entry is behind the others, but in front of the lost tokens
  refine ⟨heads, entries ++ [e], lost, hheading ▸ hl.heading, ?_, ?_, ?_, ?_, ?_⟩
  · rw [hflat]
    exact List.rel_append (hdiag ▸ records_later hl.records [t] found) (.cons hr .nil)
  · have hmove : (heads ++ (entries ++ [e]).flatMap Entry.tokens ++ lost).Perm
        (heads ++ entries.flatMap Entry.tokens ++ lost ++ [t]) := by
      simp only [List.flatMap_append, List.flatMap_singleton, htokens, List.append_assoc]
      exact (List.Perm.append_left _ List.perm_append_comm).append_left _
    exact hmove.trans (hl.all.append_right _)
  · rw [List.map_append, List.map_singleton, ht]
    exact hl.order.append (List.Sublist.refl _)
  · refine List.forall_mem_append.2 ⟨tokens_sublist_later hl.below [t], ?_⟩
    simp [htokens]
  · exact fun t ht => (hl.lost t ht).append _

/-- The token goes below the tokens of an item. -/
theorem Accounts.attach (h : Accounts files seen b) {i i' : Item} {before after : List Item}
    (hdiag : b'.diagnostics = b.diagnostics)
    (hheading : b'.document.heading = b.document.heading)
    (hflat : b.document.flat = before ++ i :: after)
    (hflat' : b'.document.flat = before ++ i' :: after)
    (hr : ∀ e : Entry, e.Records files (Filed (seen ++ [t]) b.diagnostics) i →
      ∃ e' : Entry, e.ExtendedBy t e' ∧ e'.Records files (Filed (seen ++ [t]) b.diagnostics) i') :
    Accounts files (seen ++ [t]) b' := by
  obtain ⟨heads, entries, lost, hl⟩ := h
  have hrecords := records_later hl.records [t] []
  rw [hflat, List.append_nil] at hrecords
  obtain ⟨earlier, others, rfl, hearlier, hothers⟩ := exists_of_forall₂_append hrecords
  obtain ⟨e, later, he, hlater, rfl⟩ := List.forall₂_cons_right_iff.1 hothers
  obtain ⟨e', ⟨htoken, hbelow⟩, he'⟩ := hr e he
  have htokens : e'.tokens = e.tokens ++ [t] := by
    rw [Entry.tokens, htoken, hbelow, Entry.tokens, List.cons_append]
  refine ⟨heads, earlier ++ e' :: later, lost, hheading ▸ hl.heading, ?_, ?_, ?_, ?_, ?_⟩
  · rw [hflat', hdiag]
    exact List.rel_append hearlier (.cons he' hlater)
  · have hmove : (heads ++ (earlier ++ e' :: later).flatMap Entry.tokens ++ lost).Perm
        (heads ++ (earlier ++ e :: later).flatMap Entry.tokens ++ lost ++ [t]) := by
      simp only [List.flatMap_append, List.flatMap_cons, htokens, List.append_assoc]
      refine ((List.Perm.append_left _ ?_).append_left _).append_left _
      exact List.perm_append_comm.trans (by rw [List.append_assoc])
    exact hmove.trans (hl.all.append_right _)
  · have horder := hl.order
    simp only [List.map_append, List.map_cons, htoken] at horder ⊢
    exact horder.trans (List.sublist_append_left _ _)
  · obtain ⟨hbefore, hbelow⟩ := List.forall_mem_append.1 hl.below
    obtain ⟨hthis, hafter⟩ := List.forall_mem_cons.1 hbelow
    refine List.forall_mem_append.2 ⟨tokens_sublist_later hbefore [t],
      List.forall_mem_cons.2 ⟨?_, tokens_sublist_later hafter [t]⟩⟩
    rw [htokens]
    exact hthis.append (List.Sublist.refl _)
  · exact fun t ht => (hl.lost t ht).append _

/-- The token leaves nothing. -/
theorem Accounts.lose (h : Accounts files seen b) (hlost : t.LostIn (seen ++ [t])) :
    Accounts files (seen ++ [t]) b := by
  obtain ⟨heads, entries, lost, hl⟩ := h
  refine ⟨heads, entries, lost ++ [t], hl.heading, ?_, ?_, ?_, ?_, ?_⟩
  · simpa only [List.append_nil] using records_later hl.records [t] []
  · rw [← List.append_assoc]
    exact hl.all.append_right _
  · exact hl.order.trans (List.sublist_append_left _ _)
  · exact tokens_sublist_later hl.below [t]
  · exact List.forall_mem_append.2
      ⟨fun t ht => (hl.lost t ht).append _, by simpa using hlost⟩

/-! ## One token -/

/-- A line below the open table: it goes to that table, unless the step with the table stands behind
a marker. -/
theorem Accounts.below (h : Accounts files seen b) (hb : b.Placed) (htimely : b.Timely seen)
    (hcontext : b.ContextStep seen) (ht : t.isTableLine) {g : Table → Table} {f : Step → Step}
    (hf : ∀ s table, f (Step.addInlineTable s table) = s.addInlineTable (g table))
    (hg : ∀ lines table, TableLines.Gives (Token.rowCells files) lines table →
      TableLines.Gives (Token.rowCells files) { lines with rows := lines.rows ++ [t] } (g table))
    (hopen : b.place.tableOpen = true)
    (hstep : b.place.stepOpen = true ∨ b.place.current = .tearDown) :
    Accounts files (seen ++ [t]) (b.mapOpenStep f) := by
  rcases hb.tableOpen hopen hstep with ⟨tree, htree, htable⟩ | hstranded
  · obtain ⟨⟨before, after, hflat, hflat'⟩, -⟩ := exists_mapOpenStep htree f
    exact h.attach rfl (b.heading_mapOpenStep f) hflat hflat' fun e he =>
      he.attachBelow htable hf hg
  · rw [mapOpenStep_of_stranded hstranded]
    exact h.lose (htimely.lost_row hstranded hcontext hopen hstep ht)

/-- A line below the open data table goes to it. -/
theorem Accounts.belowData (h : Accounts files seen b) {table : Table}
    (htable : b.document.dataTable? = some ⟨table, none⟩) {g : Table → Table}
    (hg : ∀ lines table, TableLines.Gives (Token.dataCells files) lines table →
      TableLines.Gives (Token.dataCells files) { lines with rows := lines.rows ++ [t] } (g table)) :
    Accounts files (seen ++ [t]) (b.edit (·.mapDataTable g)) := by
  obtain ⟨before, after, hflat, hflat'⟩ := Document.exists_mapDataTable htable g
  exact h.attach rfl rfl hflat hflat' fun e he => he.extendData hg

/-- A line of dashes below the open table. -/
theorem Accounts.skip (h : Accounts files seen b) (hb : b.Placed) (htimely : b.Timely seen)
    (hcontext : b.ContextStep seen) {row : Text} {cells : List Text}
    (hc : t.content = .tableRow row cells)
    (hopen : b.place.tableOpen = true) (hsep : t.isSeparator = true) :
    Accounts files (seen ++ [t]) b := by
  have hline : t.isTableLine := by rw [Token.isTableLine, hc]
  have hg : ∀ read lines table, TableLines.Gives read lines table →
      TableLines.Gives read { lines with rows := lines.rows ++ [t] } (id table) :=
    fun _ _ _ hgives => hgives.skip hc hsep
  by_cases hstep : b.place.stepOpen = true ∨ b.place.current = .tearDown
  · rcases hb.tableOpen hopen hstep with ⟨tree, htree, htable⟩ | hstranded
    · -- the document stays as it is, which is a change by `id`
      obtain ⟨⟨before, after, hflat, -⟩, -⟩ := exists_mapOpenStep htree id
      have hsame : tree.mapStep id = tree := by cases tree <;> rfl
      exact h.attach rfl rfl hflat hflat fun e he =>
        hsame ▸ he.attachBelow htable (fun _ _ => rfl) (hg _)
    · exact h.lose (htimely.lost_row hstranded hcontext hopen hstep hline)
  · simp only [not_or, Bool.not_eq_true] at hstep
    obtain ⟨-, table, htable⟩ := hb.dataOpen hopen hstep.1 hstep.2
    obtain ⟨before, after, hflat, -⟩ := Document.exists_mapDataTable htable id
    exact h.attach rfl rfl hflat hflat fun e he => he.extendData (hg _)

/-- The token is a new item of the open scenario, or else of the document. -/
theorem Accounts.add (h : Accounts files seen b) (hb : b.Placed) {i : Item} {e : Entry}
    (hi : i.scenario? = none) (ht : e.token = t) (hbelow : e.below = [])
    (hr : e.Records files (Filed (seen ++ [t]) b.diagnostics) i) :
    Accounts files (seen ++ [t]) (b.add i) :=
  h.push (List.append_nil _).symm (b.heading_add i) (flat_add hb hi) ht hbelow hr

/-- The token is a new item of the document. -/
theorem Accounts.addItem (h : Accounts files seen b) {i : Item} {e : Entry} (hi : i.flat = [i])
    (ht : e.token = t) (hbelow : e.below = [])
    (hr : e.Records files (Filed (seen ++ [t]) b.diagnostics) i) :
    Accounts files (seen ++ [t]) (b.edit (·.addItem i)) :=
  h.push (List.append_nil _).symm rfl
    (by simp [edit, Document.flat, Document.addItem, hi]) ht hbelow hr

/-- Only the document and the diagnostics count. -/
theorem Accounts.at_place (h : Accounts files seen b) (p : Place) :
    Accounts files seen { b with place := p } := by
  obtain ⟨heads, entries, lost, hl⟩ := h
  exact ⟨heads, entries, lost, hl.heading, hl.records, hl.all, hl.order, hl.below, hl.lost⟩

/-- The heading of the document is the first one. -/
theorem Accounts.setHeading (h : Accounts files seen b) {title : Text}
    (hc : t.content = .heading .spec title) (hnone : b.document.heading = none) :
    Accounts files (seen ++ [t])
      (b.edit fun d => { d with heading := some ⟨title, t.lineNo, .spec⟩ }) := by
  obtain ⟨heads, entries, lost, hl⟩ := h
  have hnil : heads = [] := by
    rcases hl.heading with ⟨hnil, -⟩ | ⟨_, _, _, _, hsome⟩
    · exact hnil
    · rw [hnone] at hsome
      cases hsome
  have hall := hl.all
  subst hnil
  have hrecords := records_later hl.records [t] []
  rw [List.append_nil] at hrecords
  refine ⟨[t], entries, lost, .inr ⟨t, title, rfl, hc, rfl⟩, hrecords, ?_, ?_, ?_, ?_⟩
  · rw [List.append_assoc]
    exact List.perm_append_comm.trans (hall.append_right _)
  · exact hl.order.trans (List.sublist_append_left _ _)
  · exact tokens_sublist_later hl.below [t]
  · exact fun t ht => (hl.lost t ht).append _

/-- **One token is accounted for.** -/
theorem Accounts.accepts (h : Accounts files seen b) (hb : b.Placed) (htimely : b.Timely seen)
    (hcontext : b.ContextStep seen) (hcurrent : b.place.current = Token.sectionAfter seen)
    (hn : t.Named) (ha : b.Accepts files t b') :
    Accounts files (seen ++ [t]) b' := by
  cases ha with
  | heading hc hnone => exact (h.setHeading hc hnone).at_place _
  | scenario hc hsome hnew => exact (h.addItem rfl rfl rfl (.scenario hc)).at_place _
  | early hc hp =>
    have hstep : t.isStep := by rw [Token.isStep, hc]
    have hheading : t.isSpecHeading = false := by rw [Token.isSpecHeading, hc]
    exact h.lose (.inl ⟨hstep, Token.mem_beforeHeading_concat (htimely.preamble hp) hheading⟩)
  | step hc hp =>
    refine (h.add hb rfl rfl rfl (e := .step t []) (.step hc .nil ?_)).at_place _
    exact t.fst_readStep b.frame .empty files _ _ _
  | @kept found place hk hplace hnoted =>
    have hkeep : Accounts files (seen ++ [t]) ((b.report found).keep t) := by
      refine h.push rfl (heading_add (b.report found) _) (flat_add (hb.report found) rfl)
        (e := .line t) rfl rfl (.comment hk ⟨by simp, fun ht => ?_⟩)
      exact (hnoted ht).append_left _
    exact hkeep.at_place _
  | @attach row cells hc hp hopen =>
    have hline : t.isTableLine := by rw [Token.isTableLine, hc]
    have hnames : Row.Names cells := by rwa [Token.Named, hc] at hn
    have hstep : (∃ tree, b.openStep? = some tree) ∨ b.Stranded := by
      rcases hopen with hst | ⟨hcur, hsome⟩
      · exact (hb.stepOpen hst).imp_left Option.isSome_iff_exists.1
      · refine .inl (Option.isSome_iff_exists.1 ?_)
        rwa [openStep?, hcur]
    refine Accounts.at_place ?_ _
    rcases hstep with ⟨tree, htree⟩ | hstranded
    · obtain ⟨⟨before, after, hflat, hflat'⟩, -⟩ := exists_mapOpenStep htree
        (·.addInlineTable ((Table.empty t.lineNo).addHeaders cells))
      exact h.attach rfl (b.heading_mapOpenStep _) hflat hflat' fun e he => he.attachTable hc hnames
    · rw [mapOpenStep_of_stranded hstranded]
      refine h.lose (htimely.lost_of_stranded hstranded hline ?_)
      exact hcontext.tablesContext hcurrent hstranded.current
        (hstranded.stepOpen (hopen.imp_right And.left)) (by rw [Token.isHeader, hc])
  | @openData row cells hc hp hstep hnone =>
    have hnames : Row.Names cells := by rwa [Token.Named, hc] at hn
    exact (h.addItem rfl rfl rfl (e := .data ⟨t, []⟩)
      (.data (TableLines.gives_header hc hnames))).at_place _
  | @separator row cells hc hopen hsep =>
    exact h.skip hb htimely hcontext hc hopen (by rwa [Token.isSeparator, Token.args, hc])
  | @row row cells hc hopen hsep hstep =>
    have hline : t.isTableLine := by rw [Token.isTableLine, hc]
    have hcells : (t.readRow b.frame files cells).1 = t.rowCells files := by
      rw [Token.rowCells, Token.args, hc]
      exact t.fst_readRow b.frame .empty files cells
    rw [hcells]
    exact h.below hb htimely hcontext hline
      (fun s table => Step.addInlineRow_addInlineTable s table _)
      (fun lines table hgives => hgives.add hc (by rwa [Token.isSeparator, Token.args, hc]))
      hopen hstep
  | @dataRow row cells hc hopen hsep hstep hp =>
    obtain ⟨-, table, htable⟩ := hb.dataOpen hopen hstep hp
    have hcells : (t.readDataRow files cells).1 = t.dataCells files := by
      rw [Token.dataCells, Token.args, hc]
    rw [hcells]
    exact h.belowData htable fun lines table hgives =>
      hgives.add hc (by rwa [Token.isSeparator, Token.args, hc])
  | tags hc hscenario hnone =>
    exact (h.add hb rfl rfl rfl (e := .line t) (.tags hc)).at_place _
  | reference hc href hp hnone =>
    exact h.addItem rfl rfl rfl (e := .line t) (.reference hc href)
  | tearDown hc => exact (h.addItem rfl rfl rfl (e := .line t) (.tearDown hc)).at_place _

end

end Builder

/-! ## The whole document -/

/-- **All accepted tokens are accounted for**, save those that are lost for a known reason. -/
theorem Document.ledger_of_ofTokens {fileName : Text} {files : FileSource} {tokens : List Token}
    {parsed : Parsed Document} (h : ofTokens fileName files tokens = .ok parsed)
    (hn : ∀ t ∈ tokens, t.Named) :
    ∃ b heads entries lost, Builder.Ledger files tokens b heads entries lost ∧
      parsed = ⟨b.document, b.diagnostics⟩ := by
  obtain ⟨b, ⟨-, -, -, -, -, -, heads, entries, lost, hl⟩, hparsed⟩ := inv_of_ofTokens
    (motive := fun seen b => b.Placed ∧ b.Arranged ∧ b.Filing seen ∧
      b.place.current = Token.sectionAfter seen ∧ b.Timely seen ∧ b.ContextStep seen ∧
        Builder.Accounts files seen b)
    h ⟨Builder.placed_start _, Builder.arranged_start _, Builder.filing_start _, rfl,
      Builder.timely_start _, .of_closed rfl, Builder.accounts_start _⟩
    fun ht ⟨hp, harranged, hfiling, hcurrent, htimely, hcontext, hacc⟩ ha =>
      ⟨hp.accepts ha, harranged.accepts ha, hfiling.accepts ha,
        Builder.sectionAfter_accepts hcurrent hfiling ha, htimely.accepts harranged ha,
        hcontext.accepts hcurrent ha, hacc.accepts hp htimely hcontext hcurrent (hn _ ht) ha⟩
  exact ⟨b, heads, entries, lost, hl, hparsed⟩

/-- The data table of an accepted source is one that the operations make. -/
theorem Document.built_of_parse {source fileName : Text} {dictionary : Dictionary}
    {files : FileSource} {parsed : Parsed Document}
    (h : Document.parse source fileName dictionary files = .ok parsed) :
    ∀ data ∈ parsed.document.dataTable?, data.table.Built := by
  intro data hd
  obtain ⟨tokens, read, htok, hread, rfl⟩ := parse_eq_ok_expand h
  obtain ⟨b, heads, entries, lost, hl, rfl⟩ :=
    ledger_of_ofTokens hread (Token.named_of_tokenize htok)
  rw [Dictionary.expandDocument, dataTable?_mapSteps] at hd
  obtain ⟨before, after, hflat, -⟩ := exists_mapDataTable hd id
  have hrecords := hl.records
  rw [hflat] at hrecords
  obtain ⟨_, _, -, -, hothers⟩ := exists_of_forall₂_append hrecords
  obtain ⟨e, _, he, -, -⟩ := List.forall₂_cons_right_iff.1 hothers
  exact he.built

end ScenarioBook
