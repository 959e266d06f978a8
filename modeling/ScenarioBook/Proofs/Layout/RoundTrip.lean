import ScenarioBook.Proofs.Document.Accepted
import ScenarioBook.Proofs.Layout.Rebuilt
import ScenarioBook.Proofs.Layout.Tokens

/-!
# Written documents are read back

A writable document is read back from what any layout writes for it (`parse_document`): the same
heading and the same items, up to their places in the source. The builder has rebuilt the items so
far (`Rebuilt`) after the tokens of each item, by induction over the items of each scenario and of
the document (`rebuilt_all`).
-/

set_option autoImplicit false

namespace ScenarioBook

/-! ## Items in order -/

/-- **If the tokens of each item rebuild the item, the tokens of all items rebuild them all.** -/
theorem rebuilt_all {σ : Type} {accept : σ → Token → σ} {fits : List Item → Item → Prop}
    {P : List Item → σ → Prop}
    (hone : ∀ before i b ts, P before b → fits before i → Item.ReadAs (trailAfter before) i ts →
      P (before ++ [i]) (ts.foldl accept b))
    {before items : List Item} (hi : FitAll fits before items) {b : σ} (hP : P before b)
    {ts : List Token} (hts : AllReadAs (trailAfter before) items ts) :
    P (before ++ items) (ts.foldl accept b) := by
  induction items generalizing before b ts with
  | nil =>
    rw [AllReadAs] at hts
    rw [hts, List.append_nil]
    exact hP
  | cons i is ih =>
    rw [AllReadAs] at hts
    obtain ⟨us, vs, rfl, hus, hvs⟩ := hts
    rw [← trailAfter_concat] at hvs
    have hnext := ih hi.2 (hone before i b us hP hi.1 hus) hvs
    rwa [List.append_assoc, List.singleton_append, ← List.foldl_append] at hnext

/-! ## Rebuilt items -/

/-- The builder holds these items of the document, up to their places. -/
structure Rebuilt (d : Document) (before : List Item) (b : Builder) : Prop where
  document : b.document.bare = { d with items := before }.bare
  current : b.place.current = sectionAfter before
  isOpen : b.place.isOpen → (trailAfter before).isOpen
  clean : Clean b.diagnostics

theorem Section.after_bare (current : Section) (i : Item) :
    current.after i.bare = current.after i := by
  cases i <;> simp [Item.bare, Section.after]

theorem sectionAfter_bare (items : List Item) :
    sectionAfter (items.map Item.bare) = sectionAfter items := by
  simp only [sectionAfter, List.foldl_map, Section.after_bare]

theorem Ignored.ofScenario_bare (items : List Item) :
    ofScenario (items.map Item.bare) = ofScenario items := by
  simp [ofScenario, Function.comp_def]

theorem Ignored.ofDocument_bare (items : List Item) :
    ofDocument (items.map Item.bare) = ofDocument items := by
  simp [ofDocument, sectionAfter_bare, List.dropWhile_map, Function.comp_def]

section
variable {d : Document} {before : List Item} {b : Builder}

namespace Rebuilt

theorem items (h : Rebuilt d before b) : b.document.items.map Item.bare = before.map Item.bare := by
  have := congrArg Document.items h.document
  simpa only [Document.bare, bareAll_eq_map] using this

theorem heading (h : Rebuilt d before b) :
    b.document.heading.map Heading.bare = d.heading.map Heading.bare :=
  congrArg Document.heading h.document

/-- What does not depend on places holds of the rebuilt items. -/
theorem forall_mem (h : Rebuilt d before b) {P : Item → Prop} (hP : ∀ i, P i.bare ↔ P i)
    (hbefore : ∀ i ∈ before, P i) : ∀ i ∈ b.document.items, P i := by
  have hbare : ∀ i ∈ before.map Item.bare, P i := by
    simpa [hP] using hbefore
  rw [← h.items] at hbare
  simpa [hP] using hbare

theorem frame_names (h : Rebuilt d before b) : b.frame.names = namesOf before := by
  have hheaders : b.document.items.map Item.headers? = before.map Item.headers? := by
    have := congrArg (List.map Item.headers?) h.items
    simpa [Function.comp_def] using this
  rw [Builder.frame_names, Document.names, Document.headers, Document.headers_congr hheaders]
  rfl

theorem sectionAfter_items (h : Rebuilt d before b) :
    sectionAfter b.document.items = sectionAfter before := by
  rw [← sectionAfter_bare, h.items, sectionAfter_bare]

theorem isOpen_slot (h : Rebuilt d before b) (hs : sectionAfter before ≠ .scenario) :
    (Slot.document b.document.items).IsOpen b.place.current :=
  ⟨h.current.trans h.sectionAfter_items.symm, h.current ▸ hs⟩

/-- A document that gained an item is rebuilt with that item. -/
theorem concat (h : Rebuilt d before b) {b' : Builder} {i i' : Item} (hi : i'.bare = i.bare)
    (hd : b'.document = { b.document with items := b.document.items ++ [i'] })
    (hc : b'.place.current = (sectionAfter before).after i)
    (ho : b'.place.isOpen → (i.trail (trailAfter before)).isOpen)
    (hclean : Clean b.diagnostics → Clean b'.diagnostics) : Rebuilt d (before ++ [i]) b' := by
  refine ⟨?_, ?_, by rwa [trailAfter_concat], hclean h.clean⟩
  · have hdoc := h.document
    rw [Document.bare, Document.bare, Document.mk.injEq] at hdoc
    obtain ⟨hfile, hheading, hitems⟩ := hdoc
    rw [hd, Document.bare, Document.bare, Document.mk.injEq]
    refine ⟨hfile, hheading, ?_⟩
    rw [bareAll_eq_map, bareAll_eq_map] at hitems ⊢
    rw [List.map_append, List.map_append, hitems, List.map_singleton, List.map_singleton, hi]
  · rw [hc, sectionAfter_concat]

end Rebuilt

end

/-! ## Items outside and inside scenarios -/

section
variable {d : Document} {before : List Item} {b : Builder} {files : FileSource}
  {names : List Text} {ts : List Token} {i : Item}

open Builder

/-- The tokens of a comment, a step or tags fill the slot that is open. -/
theorem grown_of_fitsIn {slot : Slot} (h : slot.IsOpen b.place.current)
    (hb : b.document.items = slot.fill []) (hf : b.frame.names = names)
    (hopen : b.place.isOpen → (trailAfter before).isOpen)
    (hi : i.FitsIn files names slot.ignored before) (hts : i.ReadAs (trailAfter before) ts) :
    Grown slot (trailAfter before) i b (ts.foldl (accept files) b) := by
  cases i with
  | comment c => exact grown_comment h hb hi hopen hts
  | step tree => exact grown_step _ h hb hi hf hts
  | tags t => exact grown_tags _ h hb hi.2 hts
  | dataTable | scenario | tearDown => cases hi

theorem dataTable?_bare_eq_none (i : Item) : i.bare.dataTable? = none ↔ i.dataTable? = none := by
  simp

theorem rebuilt_outside (h : Rebuilt d before b) (hs : sectionAfter before ≠ .scenario)
    (hi : i.FitsIn files (namesOf before) (.ofDocument before) before)
    (hts : i.ReadAs (trailAfter before) ts) :
    Rebuilt d (before ++ [i]) (ts.foldl (accept files) b) := by
  have hignored : (Slot.document b.document.items).ignored = .ofDocument before := by
    rw [Slot.ignored, ← Ignored.ofDocument_bare, h.items, Ignored.ofDocument_bare]
  have hg := grown_of_fitsIn (h.isOpen_slot hs) (by simp [Slot.fill]) h.frame_names h.isOpen
    (hignored ▸ hi) hts
  obtain ⟨i', hbare, hdoc⟩ := hg.document
  refine h.concat hbare hdoc ?_ hg.isOpen hg.clean
  rw [hg.current, h.current]
  cases i with
  | dataTable | scenario | tearDown => cases hi
  | _ => rfl

theorem exists_scenario_of_bare {items outer inner : List Item} {h : Heading}
    (hi : items.map Item.bare = (outer ++ [Item.scenario h inner]).map Item.bare) :
    ∃ outer' h' inner', items = outer' ++ [.scenario h' inner'] ∧
      outer'.map Item.bare = outer.map Item.bare ∧ h'.bare = h.bare ∧
      inner'.map Item.bare = inner.map Item.bare := by
  rw [List.map_append, List.map_singleton] at hi
  obtain ⟨outer', last, rfl, houter, hlast⟩ := List.map_eq_append_iff.1 hi
  obtain ⟨i, rfl, hbare⟩ := List.map_eq_singleton_iff.1 hlast
  cases i with
  | scenario h' inner' =>
    simp only [Item.bare, Item.scenario.injEq, bareAll_eq_map] at hbare
    exact ⟨outer', h', inner', rfl, houter, hbare⟩
  | _ => simp [Item.bare] at hbare

theorem namesOf_scenario (outer : List Item) (h : Heading) (inner : List Item) :
    namesOf (outer ++ [.scenario h inner]) = namesOf outer := by
  simp [namesOf, List.findSome?_append, Item.headers?, Item.dataTable?]

theorem rebuilt_inside {outer inner : List Item} {h : Heading}
    (hr : Rebuilt d (outer ++ [.scenario h inner]) b)
    (hi : i.FitsInScenario files (namesOf outer) inner) (hts : i.ReadAs (trailAfter inner) ts) :
    Rebuilt d (outer ++ [.scenario h (inner ++ [i])]) (ts.foldl (accept files) b) := by
  obtain ⟨outer', h', inner', hitems, houter, hheading, hinner⟩ := exists_scenario_of_bare hr.items
  have hsection : ∀ items, sectionAfter (outer ++ [.scenario h items]) = .scenario := by
    intro items
    rw [sectionAfter_concat]
    rfl
  have htrail : ∀ items, trailAfter (outer ++ [.scenario h items]) = trailAfter items := by
    intro items
    rw [trailAfter_concat, Item.trail, trailAfter]
  have hslot : (Slot.scenario outer' h' inner').IsOpen b.place.current :=
    hr.current.trans (hsection _)
  have hignored : (Slot.scenario outer' h' inner').ignored = .ofScenario inner := by
    rw [Slot.ignored, ← Ignored.ofScenario_bare, hinner, Ignored.ofScenario_bare]
  rw [Item.FitsInScenario, ← hignored] at hi
  have hg := grown_of_fitsIn hslot (by simp [Slot.fill, hitems])
    (hr.frame_names.trans (namesOf_scenario _ _ _)) (htrail inner ▸ hr.isOpen) hi hts
  obtain ⟨i', hbare, hdoc⟩ := hg.document
  -- the item went to the last scenario, so the last item of the document has changed
  refine ⟨?_, ?_, ?_, hg.clean hr.clean⟩
  · have hdocument := hr.document
    rw [Document.bare, Document.bare, Document.mk.injEq] at hdocument
    rw [hdoc, Document.bare, Document.bare, Document.mk.injEq]
    refine ⟨hdocument.1, hdocument.2.1, ?_⟩
    simp only [bareAll_eq_map, Slot.fill, List.map_append, houter, List.map_singleton, Item.bare,
      hheading, hinner, hbare]
  · rw [hg.current, hr.current, hsection, hsection]
  · rw [htrail, trailAfter_concat]
    exact hg.isOpen

theorem rebuilt_scenario {h : Heading} {items : List Item} (hr : Rebuilt d before b)
    (hd : d.heading.isSome) (hk : h.kind = .scenario)
    (hnew : ∀ i ∈ before, ∀ s ∈ i.scenario?, s.heading.title.lower ≠ h.title.lower)
    (hi : FitAll (Item.FitsInScenario files (namesOf before)) [] items) {w : Trail}
    (hts : Item.ReadAs w (.scenario h items) ts) :
    Rebuilt d (before ++ [.scenario h items]) (ts.foldl (accept files) b) := by
  rw [Item.ReadAs] at hts
  obtain ⟨t, ts, rfl, ht, hts⟩ := hts
  have hheading : b.document.heading.isSome := by
    have := congrArg Option.isSome hr.heading
    simpa [hd] using this
  have hnamesake : b.namesake? h.title = none := by
    have hnew' := hr.forall_mem (P := fun i => ∀ s, i.scenario? = some s →
      s.heading.title.lower ≠ h.title.lower) (fun i => by simp [Heading.bare]) hnew
    simp only [namesake?, List.find?_eq_none, List.mem_map, Document.scenarios, List.mem_filterMap]
    rintro title ⟨s, ⟨i, hi, hs⟩, rfl⟩
    simpa using hnew' i hi s hs
  have hstart : Rebuilt d (before ++ [.scenario h []]) (accept files b t) := by
    have haccept : accept files b t =
        (b.edit (·.addItem (.scenario ⟨h.title, t.lineNo, .scenario⟩ []))).enter .scenario := by
      rw [accept, ht]
      simp only [scenarioHeading, hnamesake]
      rw [if_neg (by simpa [Option.isSome_iff_ne_none] using hheading)]
    rw [haccept]
    refine hr.concat ?_ rfl rfl (fun ho => by cases ho) id
    rw [Item.bare, Item.bare, ← hk]
    rfl
  exact rebuilt_all (P := fun inner => Rebuilt d (before ++ [.scenario h inner]))
    (fun _ _ _ _ hP hfits hts => rebuilt_inside hP hfits hts) hi hstart hts

theorem rebuilt_tearDown {t : TearDown} (hr : Rebuilt d before b) {w : Trail}
    (hts : Item.ReadAs w (.tearDown t) ts) :
    Rebuilt d (before ++ [.tearDown t]) (ts.foldl (accept files) b) := by
  rw [Item.ReadAs] at hts
  obtain ⟨token, rfl, ht⟩ := List.map_eq_singleton_iff.1 hts
  have hne : b.place.current ≠ .preamble := hr.current ▸ sectionAfter_ne_preamble before
  have haccept : accept files b token =
      (b.edit (·.addItem (.tearDown ⟨t.marker, token.lineNo⟩))).enter .tearDown := by
    rw [accept, ht]
    simp only [tearDown]
    rw [if_neg (show (b.edit (·.addItem (.tearDown ⟨t.marker, token.lineNo⟩))).place.current ≠
      .preamble from hne)]
  rw [List.foldl_cons, List.foldl_nil, haccept]
  refine hr.concat ?_ rfl rfl (fun ho => by cases ho) id
  rw [Item.bare, Item.bare]

/-! ## The data table -/

/-- The data table stands behind the items of `b` and takes rows. -/
structure HoldsData (b : Builder) (table : Table) (b' : Builder) : Prop where
  document : b'.document =
    { b.document with items := b.document.items ++ [.dataTable ⟨table, none⟩] }
  place : b'.place = ⟨.context, false, true⟩
  diagnostics : b'.diagnostics = b.diagnostics

theorem HoldsData.row {b' : Builder} {table : Table} {row : List Cell} (hh : HoldsData b table b')
    (hfirst : ∀ i ∈ b.document.items, i.dataTable? = none)
    (hrow : Row.isSeparator (row.map Cell.written) = false)
    (hk : ∀ cell ∈ row, cell.KeptInData files) {t : Token} {text : Text}
    (ht : t.content = .tableRow text (row.map Cell.written)) :
    HoldsData b (table.addRow row) (accept files b' t) := by
  have haccept : accept files b' t = (b'.report []).edit (·.mapDataTable (·.addRow row)) := by
    rw [accept, ht]
    simp [tableRow, hrow, hh.place, t.readDataRow_written hk]
  have hupdate : updateFirst (Item.mapDataTable? (·.addRow row)) b'.document.items =
      b.document.items ++ [.dataTable ⟨table.addRow row, none⟩] := by
    have hnone : ∀ i ∈ b.document.items, Item.mapDataTable? (·.addRow row) i = none := by
      intro i hi
      have := hfirst i hi
      cases i <;> first | rfl | cases this
    rw [hh.document, updateFirst_append hnone]
    rfl
  rw [haccept]
  refine ⟨?_, hh.place, (List.append_nil _).trans hh.diagnostics⟩
  simp only [report, edit, Document.mapDataTable, hupdate]
  rw [hh.document]

/-- A `table:` line puts the table of its file behind the items. -/
theorem rebuilt_reference {data : DataTable} {path : Text} (hr : Rebuilt d before b)
    (hs : sectionAfter before ≠ .scenario) (hnone : b.document.dataTable? = none)
    (href : data.reference = some path)
    (hcolumns : (Reference.dataTable files path).map Table.columns = .ok data.table.columns)
    {t : Token} (ht : t.content = .dataTable path) :
    Rebuilt d (before ++ [.dataTable data]) (accept files b t) := by
  have hne : b.place.current ≠ .preamble := hr.current ▸ sectionAfter_ne_preamble before
  obtain ⟨table, htable, hcolumns⟩ : ∃ table, Reference.dataTable files path = .ok table ∧
      table.columns = data.table.columns := by
    cases htable : Reference.dataTable files path with
    | error fault => rw [htable] at hcolumns; cases hcolumns
    | ok table => rw [htable] at hcolumns; exact ⟨table, rfl, Except.ok.inj hcolumns⟩
  have haccept : accept files b t = b.edit
      (·.addItem (.dataTable ⟨{ table with lineNo := t.lineNo }, some path⟩)) := by
    rw [accept, ht]
    simp only [Builder.dataTable, htable, hnone]
    rw [if_neg (not_or.2 ⟨hne, hr.current ▸ hs⟩)]
    rfl
  rw [haccept]
  refine hr.concat ?_ rfl hr.current (fun ho => ?_) id
  · simp [Item.bare, Table.bare, hcolumns, href]
  · rw [Item.trail, href]
    exact hr.isOpen ho

/-- The header of a table that no step takes opens the data table. -/
theorem holdsData_header (hcurrent : b.place.current = .context)
    (hclosed : b.place.stepOpen = false) (hnone : b.document.dataTable? = none) {t : Token}
    {text : Text} {cells : List Text} (ht : t.content = .tableHeader text cells) :
    HoldsData b ((Table.empty t.lineNo).addHeaders cells) (accept files b t) := by
  have haccept : accept files b t =
      { b.edit (·.addItem (.dataTable ⟨(Table.empty t.lineNo).addHeaders cells, none⟩)) with
        place := { b.place with tableOpen := true } } := by
    rw [accept, ht]
    simp [tableHeader, hcurrent, hclosed, hnone, edit]
  rw [haccept]
  exact ⟨rfl, by rw [← hcurrent, ← hclosed], rfl⟩

theorem rebuilt_dataTable {data : DataTable} (hr : Rebuilt d before b)
    (hs : sectionAfter before ≠ .scenario) (hfits : data.Fits files before)
    (hts : Item.ReadAs (trailAfter before) (.dataTable data) ts) :
    Rebuilt d (before ++ [.dataTable data]) (ts.foldl (accept files) b) := by
  obtain ⟨hfirst, -, hfits⟩ := hfits
  have hfirst' := hr.forall_mem dataTable?_bare_eq_none hfirst
  have hnone : b.document.dataTable? = none := List.findSome?_eq_none_iff.2 hfirst'
  rw [Item.ReadAs] at hts
  cases href : data.reference with
  | some path =>
    rw [href] at hts hfits
    obtain ⟨-, -, -, hcolumns⟩ := hfits
    obtain ⟨t, rfl, ht⟩ := List.map_eq_singleton_iff.1 hts
    exact rebuilt_reference hr hs hnone href hcolumns ht
  | none =>
    rw [href] at hts hfits
    obtain ⟨hcontext, -, hnotOpen, hw, hk⟩ := hfits
    obtain ⟨t, ts, rfl, ht, hts⟩ := List.map_eq_cons_iff.1 hts
    have hclosed : b.place.stepOpen = false := by
      rw [Bool.eq_false_iff]
      intro hopen
      rw [hr.isOpen (by rw [Place.isOpen, hopen]; rfl)] at hnotOpen
      cases hnotOpen
    have hkept : ∀ row ∈ data.table.rows, ∀ cell ∈ row, cell.KeptInData files := by
      intro row hrow cell hcell
      rcases Table.mem_cells_of_mem_row hrow hcell with hmem | rfl
      · exact hk cell hmem
      · intro p hp
        cases hp
    have hheader : HoldsData b _ (accept files b t) :=
      holdsData_header (hr.current.trans hcontext) hclosed hnone ht
    have hrows := foldl_rows (F := HoldsData b) hw t.lineNo
      (fun table b' token text cells hh htoken hsep => by
        rwa [accept_dashes (by rw [hh.place]) htoken hsep])
      (fun row hrow table b' token text hh htoken =>
        hh.row hfirst' (hw.rows row hrow) (hkept row hrow) htoken)
      hheader hts
    refine hr.concat ?_ hrows.document ?_ (fun _ => ?_) (fun hc => hrows.diagnostics ▸ hc)
    · simp [Item.bare, Table.bare, href]
    · rw [List.foldl_cons, hrows.place, hcontext]
      rfl
    · rw [Item.trail, href]
      rfl

/-- **The tokens of an item that fits rebuild the item.** -/
theorem rebuilt_item (hd : d.heading.isSome) (hr : Rebuilt d before b) (hi : i.Fits files before)
    (hts : i.ReadAs (trailAfter before) ts) :
    Rebuilt d (before ++ [i]) (ts.foldl (accept files) b) := by
  cases i with
  | comment | step | tags => exact rebuilt_outside hr hi.1 hi.2 hts
  | dataTable data => exact rebuilt_dataTable hr hi.1 hi.2 hts
  | tearDown t => exact rebuilt_tearDown hr hts
  | scenario h items => exact rebuilt_scenario hr hd hi.1.2.2.2 hi.2.1 hi.2.2 hts

end

/-! ## The document -/

section
variable {d : Document} {files : FileSource}

/-- The tokens of a writable document rebuild it, with warnings at most. -/
theorem ofTokens_readAs (hw : d.Writable files) {h : Heading} (hh : d.heading = some h)
    {t : Token} {ts : List Token} (ht : t.content = .heading .spec h.title)
    (hts : AllReadAs {} d.items ts) :
    ∃ again, Document.ofTokens d.fileName files (t :: ts) = .ok again ∧
      again.document.bare = d.bare := by
  have hk : h.kind = .spec := by
    obtain ⟨h', hh', -, -, -, hk⟩ := hw.heading
    cases hh.symm.trans hh'
    exact hk
  have hstart : Rebuilt d [] (Builder.accept files (.start d.fileName) t) := by
    rw [Builder.accept, ht]
    refine ⟨?_, rfl, (fun ho => by cases ho), clean_nil⟩
    simp [Builder.specHeading, Builder.start, Builder.edit, Builder.enter, Document.empty,
      Document.bare, Heading.bare, hh, hk]
  have hrebuilt := rebuilt_all (P := Rebuilt d)
    (fun _ _ _ _ hr hi hts => rebuilt_item (by simp [hh]) hr hi hts) hw.items hstart hts
  rw [List.nil_append] at hrebuilt
  have hbare := hrebuilt.document
  have hflaws := (Document.flaws_bare_eq_nil_iff _).1
    (hbare ▸ (Document.flaws_bare_eq_nil_iff d).2 hw.flawless)
  have herrors := List.any_eq_false.2 fun x hx => Bool.eq_false_iff.1 (hrebuilt.clean x hx)
  refine ⟨⟨_, ((t :: ts).foldl (Builder.accept files) (.start d.fileName)).diagnostics⟩, ?_, hbare⟩
  simp only [Document.ofTokens, List.foldl_cons, hflaws, List.map_nil, List.append_nil, ite_self,
    Parsed.settle, herrors]
  rfl

/-- The tokens of what is written for a writable document give the document, up to its places. -/
theorem exists_ofTokens_document (hw : d.Writable files) (lay : Layout) :
    ∃ tokens read, tokenize (lay.document d) = .ok tokens ∧
      Document.ofTokens d.fileName files tokens = .ok read ∧ read.document.bare = d.bare := by
  obtain ⟨h, hh, hheading⟩ := hw.heading
  obtain ⟨t, ts, htokens, ht, hts⟩ := tokenize_document lay hh hheading hw.items
  obtain ⟨read, hread, hbare⟩ := ofTokens_readAs hw hh ht hts
  exact ⟨t :: ts, read, htokens, hread, hbare⟩

theorem parse_of_ofTokens {source fileName : Text} {tokens : List Token} {read : Parsed Document}
    (htokens : tokenize source = .ok tokens)
    (hread : Document.ofTokens fileName files tokens = .ok read) (dictionary : Dictionary) :
    Document.parse source fileName dictionary files =
      .ok { read with document := dictionary.expandDocument read.document } := by
  rw [Document.parse, htokens]
  simp only [bind, Except.bind, hread]
  rfl

/-- **A writable document is read back from what is written for it**, up to its places. -/
theorem parse_document (hw : d.Writable files) (lay : Layout) (dictionary : Dictionary) :
    ∃ again, Document.parse (lay.document d) d.fileName dictionary files = .ok again ∧
      again.document.bare = d.bare := by
  obtain ⟨tokens, read, htokens, hread, hbare⟩ := exists_ofTokens_document hw lay
  exact ⟨_, parse_of_ofTokens htokens hread dictionary,
    (dictionary.bare_expandDocument _).trans hbare⟩

end

end ScenarioBook
