import ScenarioBook.Proofs.Document.Accept
import ScenarioBook.Proofs.Document.Kinds
import ScenarioBook.Proofs.Frame.Bound
import ScenarioBook.Proofs.Layout.Bare
import ScenarioBook.Proofs.Resolution.Progress

/-!
# Accepted documents are well formed

The document of an accepted source is `WellFormed` (`wellFormed_of_parse`). Its parts have different
causes. How many items of a kind there are and in which order they stand is decided while tokens are
taken: the builder keeps the document `Orderly`, and knows from the open section whether there are
scenarios or a marker yet (`Builder.Arranged`). What the document as a whole must have was checked
at the end (`flaws_eq_nil_iff`). That steps refer to headers of the final data table holds because
headers never change (`declared_of_ofTokens`). Expansion changes none of this
(`WellFormed.mapSteps`).
-/

set_option autoImplicit false

namespace ScenarioBook

namespace Document

/-- Items stand where and as often as they may: at most one data table, at most one `tags:` item
outside scenarios, titles that differ in more than case, and no context after a scenario. -/
structure Orderly (d : Document) : Prop where
  oneDataTable : (d.items.filterMap Item.dataTable?).length ≤ 1
  oneTags : (d.items.filterMap Item.tags?).length ≤ 1
  titles : (d.scenarios.map fun s => s.heading.title.lower).Nodup
  contextsFirst : d.body.Pairwise fun i j => i.scenario?.isSome → j.step? = none

/-- No scenario has a second `tags:` item. -/
def TagsOnce (d : Document) : Prop :=
  ∀ s ∈ d.scenarios, (s.items.filterMap Item.tags?).length ≤ 1

/-- What readers of a document rely on. -/
structure WellFormed (d : Document) : Prop extends d.Orderly where
  heading : ∃ heading, d.heading = some heading ∧ heading.title.trim ≠ []
  nonempty : d.items ≠ []
  rows : ∀ data ∈ d.dataTable?, data.table.isInitialized → 1 ≤ data.table.rowCount
  steps : ∀ s ∈ d.scenarios, s.steps ≠ []
  tagsOnce : d.TagsOnce
  declared : ∀ t ∈ d.steps, ∀ name ∈ t.step.references,
    ∃ data ∈ d.dataTable?, name ∈ data.table.headers

/-! ## Order -/

section
variable {d d' : Document}

theorem contextsFirst_iff :
    (d.body.Pairwise fun i j => i.scenario?.isSome → j.step? = none) ↔
      ((d.items.map Item.kind).takeWhile (· != .tearDown)).Pairwise fun k k' =>
        k.title?.isSome → k' ≠ .step := by
  have hbody : (· != Item.Kind.tearDown) ∘ Item.kind = Item.isBody := by
    funext i
    cases i <;> rfl
  rw [List.takeWhile_map, hbody, List.pairwise_map, body]
  refine Iff.of_eq (congrArg (List.Pairwise · _) ?_)
  funext i j
  cases i <;> cases j <;>
    simp [Item.scenario?, Item.step?, Item.kind, Item.Kind.title?]

/-- Whether a document is orderly can be told from the kinds of its items. -/
theorem Orderly.of_kinds (h : d.Orderly)
    (hkinds : d'.items.map Item.kind = d.items.map Item.kind) : d'.Orderly where
  oneDataTable := by
    rw [Item.length_dataTables, hkinds, ← Item.length_dataTables]
    exact h.oneDataTable
  oneTags := by
    rw [Item.length_tags, hkinds, ← Item.length_tags]
    exact h.oneTags
  titles := by
    rw [titles_eq, hkinds, ← titles_eq]
    exact h.titles
  contextsFirst := by
    rw [contextsFirst_iff, hkinds, ← contextsFirst_iff]
    exact h.contextsFirst

theorem tagsOnce_iff : d.TagsOnce ↔ ∀ i ∈ d.items, i.tagCount ≤ 1 := by
  constructor
  · intro h i hi
    cases i with
    | scenario heading items => exact h ⟨heading, items⟩ (List.mem_filterMap.2 ⟨_, hi, rfl⟩)
    | _ => exact Nat.zero_le 1
  · intro h s hs
    obtain ⟨i, hi, hsome⟩ := List.mem_filterMap.1 hs
    cases i <;> cases hsome
    exact h _ hi

theorem TagsOnce.of_counts (h : d.TagsOnce)
    (hcounts : d'.items.map Item.tagCount = d.items.map Item.tagCount) : d'.TagsOnce := by
  rw [tagsOnce_iff] at h ⊢
  intro i hi
  obtain ⟨old, hold, heq⟩ := List.mem_map.1 (hcounts ▸ List.mem_map_of_mem hi)
  exact heq ▸ h old hold

/-! ## A new item -/

/-- Where a new item may stand. -/
theorem Orderly.addItem (h : d.Orderly) {i : Item}
    (hdata : i.dataTable?.isSome → d.dataTable? = none) (htags : i.tags?.isSome → d.tags? = none)
    (hscenario : ∀ s, i.scenario? = some s →
      s.heading.title.lower ∉ d.scenarios.map fun s => s.heading.title.lower)
    (hstep : i.step?.isSome → d.scenarios = [] ∨ d.tearDown?.isSome) : (d.addItem i).Orderly where
  oneDataTable := by
    rw [Document.addItem, List.filterMap_append]
    cases hi : i.dataTable? with
    | none => simpa [hi] using h.oneDataTable
    | some data => simp [hi, filterMap_eq_nil_of_findSome? (hdata (by rw [hi]; rfl))]
  oneTags := by
    rw [Document.addItem, List.filterMap_append]
    cases hi : i.tags? with
    | none => simpa [hi] using h.oneTags
    | some tags => simp [hi, filterMap_eq_nil_of_findSome? (htags (by rw [hi]; rfl))]
  titles := by
    rw [scenarios_addItem]
    cases hi : i.scenario? with
    | none => simpa using h.titles
    | some s =>
      rw [Option.toList_some, List.map_append, List.map_singleton]
      refine List.nodup_append.2 ⟨h.titles, by simp, ?_⟩
      rintro title hmem _ hlast rfl
      exact hscenario s hi (List.mem_singleton.1 hlast ▸ hmem)
  contextsFirst := by
    rw [body_addItem]
    split
    case isTrue => exact h.contextsFirst
    case isFalse hnone =>
      have hbody := body_of_tearDown?_eq_none (by simpa using hnone)
      refine List.pairwise_append.2 ⟨hbody ▸ h.contextsFirst, ?_, fun j hj k hk hs => ?_⟩
      · exact (List.pairwise_singleton _ i).sublist (List.takeWhile_sublist _)
      · rw [List.mem_singleton.1 ((List.takeWhile_sublist _).subset hk)]
        cases hi : i.step? with
        | none => rfl
        | some t =>
          -- a step in front of the marker is new, so there are no scenarios yet
          have hnil := (hstep (by rw [hi]; rfl)).resolve_right hnone
          obtain ⟨s, hsome⟩ := Option.isSome_iff_exists.1 hs
          have hmem : s ∈ d.scenarios := List.mem_filterMap.2 ⟨j, hj, hsome⟩
          rw [hnil] at hmem
          cases hmem

theorem TagsOnce.addItem (h : d.TagsOnce) {i : Item} (hi : i.tagCount = 0) :
    (d.addItem i).TagsOnce := by
  rw [tagsOnce_iff] at h ⊢
  refine List.forall_mem_append.2 ⟨h, ?_⟩
  simp [hi]

/-- The last scenario has room for tags if it has none. -/
theorem TagsOnce.addTags (h : d.TagsOnce) {tags : Tags}
    (hnone : d.latestScenario?.bind Scenario.tags? = none) :
    (d.addToScenario (.tags tags)).TagsOnce := by
  cases hs : d.latestScenario? with
  | none => rwa [addToScenario, mapLatestScenario_of_none hs]
  | some s =>
    obtain ⟨before, after, hitems, hupd, -⟩ := exists_mapLatestScenario hs (· ++ [.tags tags])
    have hempty : s.items.filterMap Item.tags? = [] := by
      rw [hs] at hnone
      exact List.filterMap_eq_nil_iff.2 (List.findSome?_eq_none_iff.1 hnone)
    rw [tagsOnce_iff, hitems] at h
    rw [tagsOnce_iff, addToScenario, hupd]
    obtain ⟨hbefore, hothers⟩ := List.forall_mem_append.1 h
    refine List.forall_mem_append.2 ⟨hbefore, List.forall_mem_cons.2 ⟨?_, ?_⟩⟩
    · simp [Item.tagCount, List.filterMap_append, hempty, Item.tags?]
    · exact (List.forall_mem_cons.1 hothers).2

end

end Document

/-! ## The builder -/

namespace Builder

/-- The document is orderly, and the open section tells what is not there yet: no scenario before
and among the contexts, and a marker in front of the teardown. -/
structure Arranged (b : Builder) : Prop where
  orderly : b.document.Orderly
  tagsOnce : b.document.TagsOnce
  headless : b.document.heading = none → b.place.current = .preamble
  early : b.place.current = .preamble ∨ b.place.current = .context → b.document.scenarios = []
  marked : b.place.current = .tearDown → b.document.tearDown?.isSome

section
variable {b b' : Builder} {t : Token} {files : FileSource}

theorem arranged_start (fileName : Text) : (start fileName).Arranged where
  orderly := ⟨Nat.zero_le 1, Nat.zero_le 1, List.nodup_nil, List.Pairwise.nil⟩
  tagsOnce s hs := by cases hs
  headless _ := rfl
  early _ := rfl
  marked h := by cases h

/-- A change within the section that keeps the kinds of all items. -/
theorem Arranged.of_kinds (h : b.Arranged)
    (hkinds : b'.document.items.map Item.kind = b.document.items.map Item.kind)
    (htags : b'.document.TagsOnce) (hheading : b'.document.heading = b.document.heading)
    (hp : b'.place.current = b.place.current) : b'.Arranged where
  orderly := h.orderly.of_kinds hkinds
  tagsOnce := htags
  headless hn := hp ▸ h.headless (hheading ▸ hn)
  early hs := by
    rw [Document.scenarios_eq_nil_iff, hkinds, ← Document.scenarios_eq_nil_iff]
    exact h.early (hp ▸ hs)
  marked hs := Document.isSome_tearDown?_of_kinds hkinds.symm (h.marked (hp ▸ hs))

theorem Arranged.of_sameShape (h : b.Arranged) (hshape : b.document.SameShape b'.document)
    (hheading : b'.document.heading = b.document.heading)
    (hp : b'.place.current = b.place.current) : b'.Arranged :=
  h.of_kinds hshape.kinds (h.tagsOnce.of_counts hshape.counts) hheading hp

/-- A new item of the document that is no scenario, within the section. -/
theorem Arranged.of_addItem (h : b.Arranged) {i : Item} (hd : b'.document = b.document.addItem i)
    (hp : b'.place.current = b.place.current)
    (hdata : i.dataTable?.isSome → b.document.dataTable? = none)
    (htags : i.tags?.isSome → b.document.tags? = none) (hscenario : i.scenario? = none)
    (hstep : i.step?.isSome → b.document.scenarios = [] ∨ b.document.tearDown?.isSome) :
    b'.Arranged where
  orderly := by
    rw [hd]
    exact h.orderly.addItem hdata htags (fun s hs => by rw [hscenario] at hs; cases hs) hstep
  tagsOnce := by
    rw [hd]
    refine h.tagsOnce.addItem ?_
    cases i with
    | scenario => cases hscenario
    | _ => rfl
  headless hn := by
    rw [hd] at hn
    exact hp ▸ h.headless hn
  early hs := by
    rw [hd, Document.scenarios_addItem, hscenario, h.early (hp ▸ hs)]
    rfl
  marked hs := by
    rw [hd]
    exact Document.isSome_tearDown?_addItem (h.marked (hp ▸ hs))

theorem arranged_mapOpenStep (h : b.Arranged) (f : Step → Step) : (b.mapOpenStep f).Arranged :=
  h.of_sameShape (b.sameShape_mapOpenStep f) (b.heading_mapOpenStep f) rfl

/-- A new item without tags in the open scenario, or else of the document. -/
theorem Arranged.add (h : b.Arranged) {i : Item} (hdata : i.dataTable? = none)
    (htags : i.tags? = none) (hscenario : i.scenario? = none)
    (hstep : i.step?.isSome → b.place.current ≠ .preamble) : (b.add i).Arranged := by
  by_cases hs : b.place.current = .scenario
  · rw [add_of_scenario hs]
    exact h.of_sameShape (Document.sameShape_addToScenario htags) rfl rfl
  · rw [add_of_ne_scenario hs]
    refine h.of_addItem rfl rfl (by simp [hdata]) (by simp [htags]) hscenario fun hi => ?_
    cases hp : b.place.current with
    | preamble => exact absurd hp (hstep hi)
    | context => exact .inl (h.early (.inr hp))
    | scenario => exact absurd hp hs
    | tearDown => exact .inr (h.marked hp)

theorem Arranged.at_place (h : b.Arranged) {p : Place} (hp : p.current = b.place.current) :
    { b with place := p }.Arranged :=
  ⟨h.orderly, h.tagsOnce, fun hn => hp ▸ h.headless hn, fun hs => h.early (hp ▸ hs),
    fun hs => h.marked (hp ▸ hs)⟩

/-- **One token keeps the document in order.** -/
theorem Arranged.accepts (h : b.Arranged) (ha : b.Accepts files t b') : b'.Arranged := by
  cases ha with
  | heading hc hnone =>
    refine ⟨?_, h.tagsOnce, fun hn => ?_, fun _ => h.early (.inl (h.headless hnone)), fun hs => ?_⟩
    · exact ⟨h.orderly.oneDataTable, h.orderly.oneTags, h.orderly.titles, h.orderly.contextsFirst⟩
    · cases hn
    · cases hs
  | @scenario title hc hsome hnew =>
    refine ⟨?_, h.tagsOnce.addItem rfl, fun hn => absurd hn hsome, fun hs => ?_, fun hs => ?_⟩
    · refine h.orderly.addItem (fun hd => by cases hd) (fun ht => by cases ht) ?_
        fun hst => by cases hst
      rintro s ⟨⟩ hmem
      obtain ⟨s, hs, heq⟩ := List.mem_map.1 hmem
      exact List.find?_eq_none.1 hnew s.heading.title (List.mem_map_of_mem hs) (beq_iff_eq.2 heq)
    · rcases hs with hs | hs <;> cases hs
    · cases hs
  | early | separator => exact h
  | step hc hp => exact (h.add rfl rfl rfl fun _ => hp).at_place rfl
  | @kept found place hk hplace hnoted =>
    have hreport : (b.report found).Arranged :=
      ⟨h.orderly, h.tagsOnce, h.headless, h.early, h.marked⟩
    have hkeep : ((b.report found).keep t).Arranged :=
      hreport.add rfl rfl rfl fun hi => by cases hi
    refine hkeep.at_place ?_
    rcases hplace with rfl | rfl <;> rfl
  | attach hc hp hopen => exact (arranged_mapOpenStep h _).at_place rfl
  | openData hc hp hstep hnone =>
    exact h.of_addItem rfl rfl (fun _ => hnone) (fun ht => by cases ht) rfl fun hi => by cases hi
  | row hc hopen hsep hstep => exact arranged_mapOpenStep h _
  | dataRow hc hopen hsep hstep hp =>
    exact h.of_sameShape (Document.sameShape_mapDataTable _) rfl rfl
  | tags hc hscenario hnone =>
    by_cases hs : b.place.current = .scenario
    · rw [add_of_scenario hs]
      exact h.of_kinds (Document.kinds_mapLatestScenario _) (h.tagsOnce.addTags (hscenario hs))
        rfl rfl
    · rw [add_of_ne_scenario hs]
      exact h.of_addItem rfl rfl (fun hd => by cases hd) (fun _ => hnone hs) rfl
        fun hi => by cases hi
  | reference hc href hp hnone =>
    exact h.of_addItem rfl rfl (fun _ => hnone) (fun ht => by cases ht) rfl fun hi => by cases hi
  | @tearDown marker hc =>
    have hadd : (b.edit (·.addItem (.tearDown ⟨marker, t.lineNo⟩))).Arranged :=
      h.of_addItem rfl rfl (fun hd => by cases hd) (fun ht => by cases ht) rfl
        fun hi => by cases hi
    by_cases hp : b.place.current = .preamble
    · rw [if_pos hp]
      exact hadd.at_place hp.symm
    · rw [if_neg hp]
      refine ⟨hadd.orderly, hadd.tagsOnce, fun hn => absurd (h.headless hn) hp, fun hs => ?_,
        fun _ => ?_⟩
      · rcases hs with hs | hs <;> cases hs
      · rw [Document.isSome_tearDown?_iff]
        simp [enter, edit, Document.addItem, Item.kind]

end

end Builder

/-! ## The whole document -/

namespace Document

section
variable {d : Document}

theorem scenarios_mapSteps (f : StepTree → StepTree) :
    (d.mapSteps f).scenarios = d.scenarios.map fun s =>
      { s with items := s.items.map fun i => (i.mapStep? f).getD i } := by
  rw [scenarios, scenarios, mapSteps, List.filterMap_map, List.map_filterMap]
  congr 1
  funext i
  cases i <;> rfl

/-- Changing trees above their steps keeps a document well formed. -/
theorem WellFormed.mapSteps (h : d.WellFormed) {f : StepTree → StepTree}
    (hf : ∀ t, (f t).step = t.step) : (d.mapSteps f).WellFormed where
  toOrderly := h.toOrderly.of_kinds (sameShape_mapSteps f).kinds
  heading := h.heading
  nonempty := by simpa [Document.mapSteps] using h.nonempty
  rows := by
    rw [dataTable?_mapSteps]
    exact h.rows
  steps s hs := by
    rw [scenarios_mapSteps] at hs
    obtain ⟨old, hold, rfl⟩ := List.mem_map.1 hs
    have hsome : ∀ i : Item, ((i.mapStep? f).getD i).step? = i.step?.map f := by
      intro i
      cases i <;> rfl
    have hne := h.steps old hold
    simpa [Scenario.steps, List.filterMap_map, Function.comp_def, hsome,
      List.filterMap_eq_nil_iff] using hne
  tagsOnce := h.tagsOnce.of_counts (sameShape_mapSteps f).counts
  declared t ht name hn := by
    obtain ⟨old, hold, rfl⟩ := mem_steps_mapSteps ht
    rw [dataTable?_mapSteps]
    exact h.declared old hold name (hf old ▸ hn)

end

section
variable {fileName : Text} {files : FileSource} {tokens : List Token} {parsed : Parsed Document}

theorem wellFormed_of_ofTokens (h : ofTokens fileName files tokens = .ok parsed) :
    parsed.document.WellFormed := by
  obtain ⟨-, hflaws⟩ := ofTokens_eq_ok h
  obtain ⟨hne, hheading, hrows, hsteps⟩ := flaws_eq_nil_iff.1 hflaws
  have hdeclared := declared_of_ofTokens h
  obtain ⟨b, hb, rfl⟩ := inv_of_ofTokens (motive := fun _ b => b.Arranged) h
    (Builder.arranged_start fileName) fun _ hb ha => hb.accepts ha
  refine ⟨hb.orderly, hheading, hne, fun data hd hi => ?_, hsteps, hb.tagsOnce,
    fun t ht name hn => ?_⟩
  · exact Nat.one_le_iff_ne_zero.2 fun hzero => hrows data hd ⟨hi, hzero⟩
  · obtain ⟨s, rfl, hs⟩ := hdeclared t ht
    have hmem := Frame.mem_of_mem_names_ofNames (hs name hn)
    rw [headers_eq] at hmem
    cases hd : b.document.dataTable? with
    | none => rw [hd] at hmem; cases hmem
    | some data => exact ⟨data, rfl, by simpa [hd] using hmem⟩

end

/-- **Accepted documents are well formed.** -/
theorem wellFormed_of_parse {source fileName : Text} {dictionary : Dictionary} {files : FileSource}
    {parsed : Parsed Document}
    (h : Document.parse source fileName dictionary files = .ok parsed) :
    parsed.document.WellFormed := by
  obtain ⟨tokens, read, -, hread, hdoc⟩ := parse_eq_ok h
  rw [hdoc]
  exact (wellFormed_of_ofTokens hread).mapSteps dictionary.step_expand

/-! ## A document with all its parts -/

/-- Tags, a data table, a context, a concept call, a table with a column of the data table, and a
teardown. -/
def partySource : Text :=
  ("# Party\ntags: summer\n|guest|\n|ann|\n* open the door\n## Arrival\ntags: short\n" ++
    "* greet <guest>\n* seat\n|who|\n|<guest>|\n___\n* close the door\n").toList

theorem wellFormed_of_parse_party :
    ∃ parsed, Document.parse partySource [] greetings noFiles = .ok parsed ∧
      parsed.document.steps.length = 4 ∧ parsed.document.WellFormed := by
  have hok : (Document.parse partySource [] greetings noFiles).toOption.map (fun p =>
      p.document.steps.length) = some 4 := by decide +kernel
  obtain ⟨parsed, hparse, hlen⟩ := exists_ok_of_map hok
  exact ⟨parsed, hparse, hlen, wellFormed_of_parse hparse⟩

end Document

end ScenarioBook
