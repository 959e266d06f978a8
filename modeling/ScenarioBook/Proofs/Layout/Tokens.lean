import ScenarioBook.Proofs.Layout.Lexed

/-!
# The tokens of a written document

Reading what a layout writes for a writable document gives the tokens that the document is made of
(`tokenize_document`). The lines of each item are read on their own (`read_item`): of what stands
before them only the mode of the lexer and prose in the last line count (`After`), of what follows
only whether it is a fence. So all items are read in order (`lexed_all`).
-/

set_option autoImplicit false

namespace ScenarioBook

/-! ## Items in order -/

/-- A fence behind the item would be taken for the start of its block. -/
def Item.takesFence : Item → Bool
  | .step t => t.step.below.isEmpty
  | .scenario _ _ => true
  | _ => false

/-- What the lexer still knows of the items before. -/
structure After (before : List Item) (lx : Lexer) : Prop where
  mode : lx.mode = (trailAfter before).mode
  prose : lx.OverProse → ∃ prev ∈ before.getLast?, prev.isProse ∨ prev.scenario?.isSome

theorem After.start {lx : Lexer} (h : lx.mode = .fresh) : After [] lx where
  mode := h
  prose := fun hp => by have := hp.1.symm.trans h; cases this

/-- The item is no prose to the lexer, so only the mode counts. -/
theorem After.of_mode {before : List Item} {i : Item} {lx : Lexer}
    (h : lx.mode = (i.trail (trailAfter before)).mode) (hp : ¬ lx.OverProse) :
    After (before ++ [i]) lx where
  mode := by rw [h, trailAfter_concat]
  prose := fun hover => absurd hover hp

/-- The lines of the item are read as the item, whatever follows that is not taken by it. -/
def Read (lay : Layout) (before : List Item) (i : Item) : Prop :=
  ∀ lx ls rest, After before lx → ls.map Line.text = lay.itemLines i →
    (i.takesFence → Fenceless rest) →
    ∃ ts lx', Lexed lx ls rest ts lx' ∧ i.ReadAs (trailAfter before) ts ∧ After (before ++ [i]) lx'

/-- The lines of the item do not start with a fence. -/
def StartsPlain (lay : Layout) (i : Item) : Prop :=
  ∃ t ts, lay.itemLines i = t :: ts ∧ t.trim ≠ Line.fence

section
variable {fits : List Item → Item → Prop} {lay : Layout}

/-- **If each item is read on its own, all items are read in order.** -/
theorem lexed_all
    (hread : ∀ before i, (∀ j ∈ before.getLast?, ∃ b, fits b j) → fits before i →
      Read lay before i)
    (hnext : ∀ before i j, fits before i → fits (before ++ [i]) j → i.takesFence →
      StartsPlain lay j)
    {items before : List Item} (h : FitAll fits before items)
    (hprev : ∀ j ∈ before.getLast?, ∃ b, fits b j) {lx : Lexer} {ls rest : List Line}
    (ha : After before lx) (hl : ls.map Line.text = lay.allLines items)
    (hrest : Fenceless rest) :
    ∃ ts lx', Lexed lx ls rest ts lx' ∧ AllReadAs (trailAfter before) items ts ∧
      lx'.mode = (trailAfter (before ++ items)).mode := by
  induction items generalizing before lx ls with
  | nil =>
    rw [Layout.allLines] at hl
    obtain rfl : ls = [] := List.map_eq_nil_iff.1 hl
    exact ⟨[], lx, Lexed.refl lx rest, by rw [AllReadAs], by rw [List.append_nil, ha.mode]⟩
  | cons i is ih =>
    rw [Layout.allLines] at hl
    obtain ⟨ls, ls', rfl, hls, hls'⟩ := List.map_eq_append_iff.1 hl
    -- what stands behind the item is plain, if it matters
    have hfence : i.takesFence → Fenceless (ls' ++ rest) := by
      intro htakes
      cases is with
      | nil =>
        rw [Layout.allLines] at hls'
        obtain rfl : ls' = [] := List.map_eq_nil_iff.1 hls'
        exact hrest
      | cons j js =>
        obtain ⟨t, ts, ht, hplain⟩ := hnext before i j h.1 h.2.1 htakes
        rw [Layout.allLines, ht, List.cons_append] at hls'
        exact fenceless_of_head hls' hplain rest
    obtain ⟨ts, lx', hlexed, hts, ha'⟩ := hread before i hprev h.1 lx ls (ls' ++ rest) ha hls hfence
    obtain ⟨ts', lx'', hlexed', hts', hmode⟩ := ih h.2
      (by rw [List.getLast?_concat]; rintro j ⟨⟩; exact ⟨before, h.1⟩) ha' hls'
    refine ⟨ts ++ ts', lx'', hlexed.trans hlexed', ?_, ?_⟩
    · rw [AllReadAs]
      exact ⟨ts, ts', rfl, hts, trailAfter_concat before i ▸ hts'⟩
    · rw [hmode, List.append_assoc, List.singleton_append]

theorem isLine_allLines (hone : ∀ before i, fits before i → ∀ t ∈ lay.itemLines i, IsLine t)
    {items before : List Item} (h : FitAll fits before items) :
    ∀ t ∈ lay.allLines items, IsLine t := by
  induction items generalizing before with
  | nil =>
    rw [Layout.allLines]
    exact fun _ ht => by cases ht
  | cons i is ih =>
    rw [Layout.allLines]
    exact List.forall_mem_append.2 ⟨hone before i h.1, ih h.2⟩

end

/-! ## Comments, steps and tags -/

section
variable {lay : Layout} {files : FileSource} {names : List Text} {ignored : Ignored}
  {before : List Item}

open Lexer

theorem not_overProse_of_mode {lx : Lexer} (h : lx.mode ≠ .comment) : ¬ lx.OverProse :=
  fun hover => h hover.1

theorem isProse_of_content {c : Comment} {mode : Mode} {text : Text}
    (h : c.Legible before) (hc : c.content mode = .comment text)
    (hne : text ≠ blankLine) : c.shape.isProse := by
  unfold Comment.content at hc
  rcases h with hb | ⟨-, -, hlegible⟩
  · rw [Comment.shape_of_isBlank hb] at hc
    cases hc
    exact absurd (by simpa [Comment.isBlank] using hb) hne
  · cases hs : c.shape with rw [hs] at hc hlegible
    | prose | underline => rfl
    | tableLine =>
      simp only at hc
      split at hc <;> cases hc
    | tags | dataTable | tearDown => cases hc
    | blank | heading | step => cases hlegible

theorem read_comment {c : Comment} (h : c.Legible before)
    (hprev : ∀ prev ∈ before.getLast?, prev.scenario? = none) : Read lay before (.comment c) := by
  intro lx ls rest ha hl hrest
  rw [Layout.itemLines] at hl
  obtain ⟨l, rfl, htext⟩ := List.map_eq_singleton_iff.1 hl
  have hover : lx.OverProse → ∃ prev ∈ before.getLast?, prev.isProse := by
    intro hover
    obtain ⟨prev, hmem, hprose | hscenario⟩ := ha.prose hover
    · exact ⟨prev, hmem, hprose⟩
    · rw [hprev prev hmem] at hscenario
      cases hscenario
  have hlexed : Lexed lx [l] rest _ _ := lexed_comment h htext ha.mode hover
  refine ⟨_, _, hlexed, ?_, ?_, fun hover => ⟨.comment c, by simp, .inl ?_⟩⟩
  · rw [Item.ReadAs, ha.mode]
    refine ⟨_, rfl, rfl, asComment_token _ ?_⟩
    by_cases hb : c.isBlank
    · exact .inl hb
    · rw [if_neg hb] at htext
      exact .inr (by rw [htext, (h.resolve_left hb).2.1])
  · rw [trailAfter_concat, Item.trail]
    rfl
  · obtain ⟨text, hcontent, hne⟩ := overProse_push hover
    exact isProse_of_content h hcontent hne

theorem read_step {t : StepTree} (h : t.step.Writable files names) : Read lay before (.step t) := by
  intro lx ls rest ha hl hrest
  rw [Layout.itemLines] at hl
  obtain ⟨ts, lx', hlexed, hts, hmode⟩ := lexed_step lx h hl
    fun hb => hrest (by simp [Item.takesFence, hb])
  refine ⟨ts, lx', hlexed, by rwa [Item.ReadAs], .of_mode (by rw [hmode, Item.trail]) ?_⟩
  refine not_overProse_of_mode ?_
  rw [hmode, Step.trail]
  split <;> simp

theorem read_tags {t : Tags} (h : t.Writable) : Read lay before (.tags t) := by
  intro lx ls rest ha hl hrest
  rw [Layout.itemLines] at hl
  obtain ⟨l, rfl, htext⟩ := List.map_eq_singleton_iff.1 hl
  refine ⟨_, _, lexed_tags h htext, by rw [Item.ReadAs]; rfl, .of_mode (by rw [Item.trail]; rfl) ?_⟩
  exact not_overProse_of_mode fun h => by cases h

theorem trim_ne_fence {c : Char} {r : Text} (hb : ¬ Text.isBlank c) (hc : c ≠ '"') :
    Text.trim (c :: r) ≠ Line.fence := by
  intro h
  have hstart : Text.trimStart (c :: r) = c :: r :=
    Text.trimStart_eq_self_iff.2 fun d hd => by cases hd; exact hb
  obtain ⟨w, hw⟩ := Text.trimEnd_isPrefix (c :: r)
  rw [Text.trim, hstart] at h
  rw [h] at hw
  cases hw
  exact hc rfl

theorem startsPlain_comment {c : Comment} (h : c.isBlank ∨ c.text.trim ≠ Line.fence) :
    StartsPlain lay (.comment c) := by
  refine ⟨_, [], by rw [Layout.itemLines], ?_⟩
  split
  case isTrue => decide
  case isFalse hb => exact h.resolve_left hb

theorem startsPlain_step {t : StepTree} (h : t.step.Writable files names) :
    StartsPlain lay (.step t) :=
  ⟨_, _, by rw [Layout.itemLines, h.stepLines_eq], trim_ne_fence (by decide) (by decide)⟩

theorem startsPlain_tags (t : Tags) : StartsPlain lay (.tags t) :=
  ⟨_, _, by rw [Layout.itemLines]; rfl, trim_ne_fence (c := 't') (by decide) (by decide)⟩

theorem startsPlain_of_legible {c : Comment} {i : Item} (h : c.Legible (before ++ [i]))
    (hi : i.isBareStep) : StartsPlain lay (.comment c) := by
  refine startsPlain_comment (h.imp id fun hw hfence => ?_)
  have hprose : c.shape = .prose := by
    rw [Comment.shape, hfence]
    decide
  have hlegible := hw.2.2
  rw [hprose] at hlegible
  exact hlegible.2 i (by rw [List.getLast?_concat]; rfl) hi hfence

theorem read_legible {i : Item}
    (hprev : ∀ j ∈ before.getLast?, ∃ b, j.Legible files names b)
    (h : i.Legible files names before) : Read lay before i := by
  cases i with
  | comment c =>
    refine read_comment h fun j hj => ?_
    obtain ⟨b, hb⟩ := hprev j hj
    cases j with
    | scenario => cases hb
    | _ => rfl
  | step t => exact read_step h
  | tags t => exact read_tags h
  | dataTable | scenario | tearDown => cases h

theorem startsPlain_legible {i j : Item} (hi : i.Legible files names before)
    (hj : j.Legible files names (before ++ [i])) (htakes : i.takesFence) :
    StartsPlain lay j := by
  cases j with
  | comment c =>
    refine startsPlain_of_legible hj ?_
    cases i with
    | step t => exact htakes
    | scenario => cases hi
    | _ => cases htakes
  | step t => exact startsPlain_step hj
  | tags t => exact startsPlain_tags t
  | dataTable | scenario | tearDown => cases hj

theorem isLine_legible {i : Item} (h : i.Legible files names before) :
    ∀ t ∈ lay.itemLines i, IsLine t := by
  intro t ht
  cases i with
  | comment c =>
    rw [Layout.itemLines, List.mem_singleton] at ht
    rw [ht]
    exact Comment.Legible.isLine h
  | step tree =>
    rw [Layout.itemLines] at ht
    exact h.isLine ht
  | tags tags =>
    rw [Layout.itemLines, List.mem_singleton] at ht
    rw [ht]
    exact isLine_tags h
  | dataTable | scenario | tearDown => cases h

/-- **Behind a line that leaves nothing, legible items are read in order.** -/
theorem lexed_items {items : List Item} (h : FitAll (Item.Legible files names) [] items)
    {lx : Lexer} (hm : lx.mode = .fresh) {ls rest : List Line}
    (hl : ls.map Line.text = lay.allLines items) (hrest : Fenceless rest) :
    ∃ ts lx', Lexed lx ls rest ts lx' ∧ AllReadAs {} items ts ∧
      lx'.mode = (trailAfter items).mode :=
  lexed_all (fun _ _ => read_legible) (fun _ _ _ => startsPlain_legible) h
    (fun _ h => by cases h) (.start hm) hl hrest

/-! ## The items of a document -/

theorem sectionAfter_of_scenario {j : Item} (hj : j ∈ before.getLast?) (hs : j.scenario?.isSome) :
    sectionAfter before = .scenario := by
  obtain ⟨init, rfl⟩ := List.getLast?_eq_some_iff.1 hj
  rw [sectionAfter_concat]
  cases j with
  | scenario => rfl
  | _ => cases hs

theorem read_dataTable {d : DataTable} (h : d.Fits files before) :
    Read lay before (.dataTable d) := by
  intro lx ls rest ha hl hrest
  rw [Layout.itemLines] at hl
  obtain ⟨hfirst, htags, h⟩ := h
  rw [← ha.mode] at htags
  cases hr : d.reference with
  | some path =>
    rw [hr] at h hl
    obtain ⟨hne, htight, -⟩ := h
    obtain ⟨l, rfl, htext⟩ := List.map_eq_singleton_iff.1 hl
    have hlexed : Lexed lx [l] rest _ _ := lexed_dataTable hne htight htext htags
    refine ⟨_, _, hlexed, by rw [Item.ReadAs, hr]; rfl, .of_mode ?_ fun hover => ?_⟩
    · rw [Item.trail, hr]
      exact ha.mode
    · obtain ⟨text, hcontent, -⟩ := overProse_push hover
      cases hcontent
  | none =>
    rw [hr] at h hl
    obtain ⟨-, htable, -, hw, -⟩ := h
    rw [← ha.mode] at htable
    obtain ⟨ts, lx', hlexed, hts, hmode⟩ := lexed_table lx rest hw.legible hl htags htable
    refine ⟨ts, lx', hlexed, by rwa [Item.ReadAs, hr], .of_mode ?_ ?_⟩
    · rw [hmode, Item.trail, hr]
      rfl
    · exact not_overProse_of_mode (by simp [hmode])

theorem read_tearDown {t : TearDown} (hm : (trailAfter before).mode ≠ .tags)
    (hu : Text.allOf '_' t.marker) (h3 : 3 ≤ t.marker.length) : Read lay before (.tearDown t) := by
  intro lx ls rest ha hl hrest
  rw [Layout.itemLines] at hl
  obtain ⟨l, rfl, htext⟩ := List.map_eq_singleton_iff.1 hl
  have hlexed : Lexed lx [l] rest _ _ := lexed_tearDown hu h3 htext (ha.mode ▸ hm)
  refine ⟨_, _, hlexed, by rw [Item.ReadAs]; rfl, .of_mode (by rw [Item.trail]; rfl) ?_⟩
  exact not_overProse_of_mode fun h => by cases h

theorem read_scenario {h : Heading} {items : List Item} (hh : h.Writable .scenario)
    (hi : FitAll (Item.FitsInScenario files names) [] items) :
    Read lay before (.scenario h items) := by
  intro lx ls rest ha hl hrest
  rw [Layout.itemLines] at hl
  obtain ⟨l, ls, rfl, htext, hls⟩ := List.map_eq_cons_iff.1 hl
  obtain ⟨htight, hne, -⟩ := hh
  have hline : Text.Tight ('#' :: '#' :: ' ' :: h.title) :=
    htight.append hne (c := '#') (by decide) ['#', ' ']
  have hs : l.shape = .heading .scenario h.title := by
    rw [Line.shape, htext, Text.trim_eq_self_iff.2 htight]
    exact (congrArg Shape.ofTrimmed (Text.trim_eq_self_iff.2 hline)).trans
      (by rw [Shape.ofTrimmed_scenarioHeading, trim_blank_cons htight])
  have hhead : Lexed lx [l] (ls ++ rest) _ _ := lexed_heading hne hs
  obtain ⟨ts, lx', hlexed, hts, hmode⟩ := lexed_items (hi.imp fun _ _ => Item.FitsIn.legible)
    (show (lx.push l (.heading .scenario h.title) .fresh).mode = .fresh from rfl) hls (hrest rfl)
  refine ⟨_, lx', hhead.trans hlexed, ?_, ?_, fun _ => ⟨.scenario h items, by simp, .inr rfl⟩⟩
  · rw [Item.ReadAs]
    exact ⟨_, ts, rfl, rfl, hts⟩
  · rw [trailAfter_concat, Item.trail]
    exact hmode

/-- **The lines of an item that fits are read as the item.** -/
theorem read_item {i : Item} (h : i.Fits files before) : Read lay before i := by
  cases i with
  | comment c =>
    refine read_comment h.2.legible fun j hj => Option.not_isSome_iff_eq_none.1 fun hscenario => ?_
    exact h.1 (sectionAfter_of_scenario hj hscenario)
  | step t => exact read_step h.2
  | tags t => exact read_tags h.2.1
  | dataTable d => exact read_dataTable h.2
  | tearDown t => exact read_tearDown h.1 h.2.1 h.2.2
  | scenario hd items => exact read_scenario h.1 h.2.2

theorem startsPlain_item {i j : Item} (hj : j.Fits files (before ++ [i])) (htakes : i.takesFence) :
    StartsPlain lay j := by
  cases j with
  | comment c =>
    refine startsPlain_of_legible hj.2.legible ?_
    cases i with
    | step t => exact htakes
    | scenario =>
      exact absurd (sectionAfter_concat _ _) hj.1
    | _ => cases htakes
  | step t => exact startsPlain_step hj.2
  | tags t => exact startsPlain_tags t
  | dataTable d =>
    obtain ⟨-, -, -, h⟩ := hj
    cases hr : d.reference with
    | some path =>
      exact ⟨_, _, by rw [Layout.itemLines, hr]; rfl,
        trim_ne_fence (c := 't') (by decide) (by decide)⟩
    | none =>
      rw [hr] at h
      have hw := h.2.2.2.1
      refine ⟨_, _, by rw [Layout.itemLines, hr]; exact lay.tableLines_eq hw.legible, ?_⟩
      rw [trim_rowLine (rowFits_of_mem hw.legible List.mem_cons_self)]
      exact fun h => by cases h
  | tearDown t =>
    obtain ⟨-, hu, -⟩ := hj
    refine ⟨t.marker, [], by rw [Layout.itemLines], ?_⟩
    rw [Text.trim_eq_self_iff.2 (tight_of_allOf hu (by decide))]
    rintro hm
    rw [hm] at hu
    cases hu
  | scenario hd items =>
    exact ⟨_, _, by rw [Layout.itemLines]; rfl,
      trim_ne_fence (c := '#') (by decide) (by decide)⟩

theorem isLine_item {i : Item} (h : i.Fits files before) : ∀ t ∈ lay.itemLines i, IsLine t := by
  intro line hl
  cases i with
  | comment | step | tags => exact isLine_legible h.2.legible line hl
  | dataTable d =>
    obtain ⟨-, -, -, h⟩ := h
    rw [Layout.itemLines] at hl
    cases hr : d.reference with
    | some path =>
      rw [hr] at h hl
      obtain ⟨hne, htight, hn, -⟩ := h
      rw [List.mem_singleton.1 hl]
      refine isLine_of_tight (htight.append hne (c := 't') (by decide) "able: ".toList) ?_
      simpa using hn
    | none =>
      rw [hr] at h hl
      exact isLine_tableLines h.2.2.2.1.legible hl
  | tearDown t =>
    obtain ⟨-, hu, -⟩ := h
    rw [Layout.itemLines, List.mem_singleton] at hl
    rw [hl]
    refine isLine_of_tight (tight_of_allOf hu (by decide)) fun hn => ?_
    have := eq_of_allOf hu hn
    cases this
  | scenario hd items =>
    obtain ⟨hh, -, hi⟩ := h
    rw [Layout.itemLines] at hl
    rcases List.mem_cons.1 hl with rfl | hl
    · obtain ⟨htight, hne, hn, -⟩ := hh
      rw [Text.trim_eq_self_iff.2 htight]
      refine isLine_of_tight (htight.append hne (c := '#') (by decide) ['#', ' ']) ?_
      simpa using hn
    · exact isLine_allLines (fun _ _ h => isLine_legible h.legible) hi line hl

/-! ## The document -/

/-- **Reading a written document gives its heading and its items.** -/
theorem tokenize_document (lay : Layout) {d : Document} {h : Heading} (hd : d.heading = some h)
    (hh : h.Writable .spec) (hi : FitAll (Item.Fits files) [] d.items) :
    ∃ t ts, tokenize (lay.document d) = .ok (t :: ts) ∧ t.content = .heading .spec h.title ∧
      AllReadAs {} d.items ts := by
  obtain ⟨htight, hne, hn, -⟩ := hh
  have hline : Text.Tight ('#' :: ' ' :: h.title) :=
    htight.append hne (c := '#') (by decide) [' ']
  have hlines : lay.documentLines d = ('#' :: ' ' :: h.title) :: lay.allLines d.items := by
    rw [Layout.documentLines, hd, Option.map_some, Text.trim_eq_self_iff.2 htight]
    rfl
  have hread : (Line.ofSource (lay.document d)).map (·.text) =
      ('#' :: ' ' :: h.title) :: lay.allLines d.items := by
    rw [lay.document_eq, hlines]
    refine Line.map_text_ofSource (List.forall_mem_cons.2 ⟨isLine_of_tight hline ?_, ?_⟩)
    · simpa using hn
    · exact isLine_allLines (fun _ _ => isLine_item) hi
  obtain ⟨l, ls, hsource, htext, hls⟩ := List.map_eq_cons_iff.1 hread
  have hs : l.shape = .heading .spec h.title := by
    rw [Line.shape, htext, Text.trim_eq_self_iff.2 hline, Shape.ofTrimmed_specHeading,
      trim_blank_cons htight]
  have hhead : Lexed .start [l] (ls ++ []) _ _ := lexed_heading hne hs
  have hafter : After [] (Lexer.start.push l (.heading .spec h.title) .fresh) := .start rfl
  have hend : Fenceless [] := fun _ h => by cases h
  obtain ⟨ts, lx', hlexed, hts, -⟩ := lexed_all
    (fun _ _ _ => read_item) (fun _ _ _ _ => startsPlain_item) hi
    (fun _ h => by cases h) hafter hls hend
  have hall := hhead.trans hlexed
  have hrun : Lexer.start.run (l :: ls) = lx' := by
    have := hall.run
    rwa [List.append_nil, run] at this
  refine ⟨l.token (.heading .spec h.title), ts, ?_, rfl, hts⟩
  rw [tokenize, hsource, hrun, hall.diagnostics, hall.tokens]
  rfl

end

end ScenarioBook
