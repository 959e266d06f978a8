import ScenarioBook.Proofs.Document.Warned
import ScenarioBook.Proofs.Layout.RoundTrip

/-!
# Canonical documents are read back whole

A document is `Canonical` if its items come in the order in which they are usually written: tags,
the data table, context steps, scenarios, and the teardown, with blank lines in between. Each item
by itself is one that can be written (`Item.Canonical`). The order alone gives what the clauses of
`Document.Writable` ask of the items before an item (`Document.Canonical.writable`): nothing that
stands before an item is open for its lines, and nothing that a section can have only once comes
twice.

Reading back gives no warning, because the line of a warning would be there as a comment.
-/

set_option autoImplicit false

namespace ScenarioBook

/-! ## Items -/

namespace Item

/-- A blank line, a step on its own or tags, as they stand in a scenario. -/
def CanonicalIn (files : FileSource) (names : List Text) : Item → Prop
  | .comment c => c.isBlank
  | .step t => t = .ofStep t.step ∧ t.step.Writable files names
  | .tags t => t.values ≠ [] ∧ t.Writable
  | .dataTable _ | .scenario _ _ | .tearDown _ => False

/-- An item of a document that can be written, wherever it stands. -/
def Canonical (files : FileSource) (names : List Text) : Item → Prop
  | .dataTable data =>
    data.reference = none ∧ 0 < data.table.rowCount ∧ data.table.Writable ∧
      ∀ cell ∈ data.table.cells, cell.KeptInData files
  | .scenario h items =>
    h.Writable .scenario ∧ (∀ i ∈ items, i.CanonicalIn files names) ∧
      (items.filterMap tags?).length ≤ 1 ∧ items.filterMap step? ≠ []
  | .tearDown t => Text.allOf '_' t.marker ∧ 3 ≤ t.marker.length
  | i => i.CanonicalIn files names

end Item

/-- Tags, the data table and steps, in this order and with comments in between. -/
def IsFront (items : List Item) : Prop :=
  ∃ (tags : Option Tags) (data : Option DataTable) (steps : List StepTree),
    items.filter (·.comment?.isNone) =
      tags.toList.map .tags ++ data.toList.map .dataTable ++ steps.map .step

/-- Nothing, or the teardown marker with steps and comments behind it. -/
def IsBack (items : List Item) : Prop :=
  items = [] ∨ ∃ marker others, items = .tearDown marker :: others ∧
    ∀ i ∈ others, i.step?.isSome ∨ i.comment?.isSome

/-- The items of the document are ones that can be written, in the usual order. -/
structure Document.Canonical (files : FileSource) (d : Document) : Prop where
  heading : ∃ h, d.heading = some h ∧ h.Writable .spec
  nonempty : d.items ≠ []
  items : ∀ i ∈ d.items, i.Canonical files d.names
  order : ∃ front scenarios back, d.items = front ++ scenarios ++ back ∧ IsFront front ∧
    (∀ i ∈ scenarios, i.scenario?.isSome) ∧ IsBack back
  distinct : (d.scenarios.map (·.heading.title.lower)).Nodup

/-! ## Deciding -/

section
variable (files : FileSource) (names : List Text)

instance : DecidablePred (Item.CanonicalIn files names)
  | .comment c => inferInstanceAs (Decidable (c.isBlank = true))
  | .step (.plain s frame) =>
    decidable_of_iff (frame = .empty ∧ s.Writable files names)
      (and_congr_left' ⟨fun h => congrArg (StepTree.plain s) h, fun h => by injection h⟩)
  | .step (.call _ _ _) => isFalse fun h => by cases h.1
  | .tags _ => inferInstanceAs (Decidable (_ ∧ _))
  | .dataTable _ | .scenario _ _ | .tearDown _ => inferInstanceAs (Decidable False)

instance : DecidablePred (Item.Canonical files names)
  | .comment c => inferInstanceAs (Decidable ((Item.comment c).CanonicalIn files names))
  | .step t => inferInstanceAs (Decidable ((Item.step t).CanonicalIn files names))
  | .tags t => inferInstanceAs (Decidable ((Item.tags t).CanonicalIn files names))
  | .dataTable _ | .scenario _ _ | .tearDown _ => inferInstanceAs (Decidable (_ ∧ _))

end

/-! ## What stands before an item -/

section
variable {fits : List Item → Item → Prop} {before items more : List Item}

theorem fitAll_of_split (h : ∀ pre i post, items = pre ++ i :: post → fits (before ++ pre) i) :
    FitAll fits before items := by
  induction items generalizing before with
  | nil => trivial
  | cons i is ih =>
    refine ⟨by simpa using h [] i is rfl, ih fun pre j post hsplit => ?_⟩
    have := h (i :: pre) j post (by rw [hsplit]; rfl)
    rwa [List.append_assoc, List.singleton_append]

/-- Items that open no section leave the section as it is. -/
theorem sectionAfter_append (h : ∀ i ∈ more, ∀ current : Section, current.after i = current) :
    sectionAfter (items ++ more) = sectionAfter items := by
  induction more using List.reverseRecOn with
  | nil => rw [List.append_nil]
  | append_singleton more i ih =>
    obtain ⟨hmore, hi⟩ := List.forall_mem_append.1 h
    rw [← List.append_assoc, sectionAfter_concat, hi i List.mem_cons_self, ih hmore]

/-- Only a data table changes the declared names. -/
theorem namesOf_append (h : ∀ i ∈ more, i.dataTable? = none) :
    namesOf (items ++ more) = namesOf items := by
  have hnone : more.findSome? Item.headers? = none :=
    List.findSome?_eq_none_iff.2 fun i hi => by rw [Item.headers?, h i hi]; rfl
  rw [namesOf, namesOf, List.findSome?_append, hnone, Option.or_none]

end

/-! ## What the lines of an item leave -/

section
variable {files : FileSource} {names : List Text} {items : List Item}

theorem Item.CanonicalIn.mode_trail_ne_tags {i : Item} (h : i.CanonicalIn files names) (w : Trail) :
    (i.trail w).mode ≠ .tags := by
  cases i with
  | comment c =>
    rw [Item.trail, Comment.shape_of_isBlank h]
    exact fun he => by cases he
  | step t =>
    rw [Item.trail, Step.trail]
    dsimp only
    split <;> exact fun he => by cases he
  | tags t =>
    rw [Item.trail]
    exact fun he => by cases he
  | dataTable | scenario | tearDown => cases h

/-- A canonical item leaves no line of tags to be continued. -/
theorem Item.Canonical.mode_trail_ne_tags {i : Item} (h : i.Canonical files names) (w : Trail) :
    (i.trail w).mode ≠ .tags := by
  cases i with
  | comment c => exact @CanonicalIn.mode_trail_ne_tags files names (.comment c) h w
  | step t => exact @CanonicalIn.mode_trail_ne_tags files names (.step t) h w
  | tags t => exact @CanonicalIn.mode_trail_ne_tags files names (.tags t) h w
  | tearDown t =>
    rw [Item.trail]
    exact fun he => by cases he
  | dataTable data =>
    rw [Item.trail, h.1]
    exact fun he => by cases he
  | scenario heading items =>
    obtain ⟨-, hitems, -⟩ := h
    rw [Item.trail, ← trailAfter]
    induction items using List.reverseRecOn with
    | nil => exact fun he => by cases he
    | append_singleton items i _ =>
      rw [trailAfter_concat]
      exact (hitems i (by simp)).mode_trail_ne_tags _

theorem mode_trailAfter_ne_tags (h : ∀ i ∈ items, i.Canonical files names) :
    (trailAfter items).mode ≠ .tags := by
  induction items using List.reverseRecOn with
  | nil => exact fun he => by cases he
  | append_singleton items i _ =>
    rw [trailAfter_concat]
    exact (h i (by simp)).mode_trail_ne_tags _

/-- Behind blank lines and tags no table is open, and nothing takes one. -/
theorem trailAfter_blank_or_tags
    (h : ∀ i ∈ items, (∃ c : Comment, i = .comment c ∧ c.isBlank) ∨ i.tags?.isSome) :
    (trailAfter items).mode ≠ .table ∧ (trailAfter items).isOpen = false := by
  induction items using List.reverseRecOn with
  | nil => exact ⟨(fun he => by cases he), rfl⟩
  | append_singleton items i _ =>
    rw [trailAfter_concat]
    rcases h i (by simp) with ⟨c, rfl, hc⟩ | ht
    · rw [Item.trail, Comment.shape_of_isBlank hc]
      exact ⟨(fun he => by cases he), rfl⟩
    · cases i <;> cases ht
      rw [Item.trail]
      exact ⟨(fun he => by cases he), rfl⟩

end

/-! ## Order -/

/-- The first item can stand before the second one, in front of all scenarios. -/
def Item.Precedes : Item → Item → Prop
  | .comment _, _ | _, .comment _ => True
  | .tags _, .dataTable _ | .tags _, .step _ | .dataTable _, .step _ | .step _, .step _ => True
  | _, _ => False

theorem IsFront.pairwise {items : List Item} (h : IsFront items) :
    items.Pairwise Item.Precedes := by
  obtain ⟨tags, data, steps, hfilter⟩ := h
  have hpair : (items.filter (·.comment?.isNone)).Pairwise Item.Precedes := by
    have hsteps : steps.Pairwise fun _ _ => True := List.pairwise_of_forall fun _ _ => trivial
    rw [hfilter]
    cases tags <;> cases data <;> simp [List.pairwise_map, Item.Precedes, hsteps]
  refine (List.pairwise_filter.1 hpair).imp fun {i j} hij => ?_
  cases i <;> cases j <;> first | trivial | exact hij rfl rfl

/-- No item in front of the scenarios opens a section. -/
theorem IsFront.after {items : List Item} (h : IsFront items) :
    ∀ i ∈ items, ∀ current : Section, current.after i = current := by
  obtain ⟨tags, data, steps, hfilter⟩ := h
  intro i hi current
  cases hc : i.comment? with
  | some c =>
    cases i <;> cases hc
    rfl
  | none =>
    have hmem : i ∈ items.filter (·.comment?.isNone) := List.mem_filter.2 ⟨hi, by rw [hc]; rfl⟩
    rw [hfilter] at hmem
    simp only [List.mem_append, List.mem_map] at hmem
    rcases hmem with (⟨t, -, rfl⟩ | ⟨data, -, rfl⟩) | ⟨t, -, rfl⟩ <;> rfl

/-! ## Canonical documents are writable -/

section
variable {files : FileSource} {names : List Text} {front pre post before items : List Item}
  {i : Item}

/-- An item in front of the scenarios fits behind the items before it. -/
theorem IsFront.fits (h : IsFront front) (hsplit : front = pre ++ i :: post)
    (hc : ∀ j ∈ front, j.Canonical files names)
    (hnames : (∀ j ∈ i :: post, j.dataTable? = none) → namesOf pre = names) :
    i.Fits files pre := by
  have hpair := h.pairwise
  rw [hsplit, List.pairwise_append] at hpair
  obtain ⟨-, hpost, hpre⟩ := hpair
  have hprec : ∀ j ∈ pre, j.Precedes i := fun j hj => hpre j hj i List.mem_cons_self
  have hi : i.Canonical files names := hc i (by simp [hsplit])
  have hsection : sectionAfter pre = .context := by
    rw [← List.nil_append pre]
    exact sectionAfter_append fun j hj => h.after j (by simp [hsplit, hj])
  have hne : sectionAfter pre ≠ .scenario := by
    rw [hsection]
    decide
  cases i with
  | comment c => exact ⟨hne, .inl hi⟩
  | step t =>
    have hnone : ∀ j ∈ Item.step t :: post, j.dataTable? = none := by
      refine List.forall_mem_cons.2 ⟨rfl, fun j hj => ?_⟩
      have := (List.pairwise_cons.1 hpost).1 j hj
      cases j <;> first | rfl | cases this
    refine ⟨hne, ?_⟩
    rw [hnames hnone]
    exact hi.2
  | tags t =>
    refine ⟨hne, hi.2, ?_⟩
    refine List.any_eq_false.2 fun j hj => ?_
    have := hprec j hj
    cases j <;> first | exact Bool.false_ne_true | cases this
  | dataTable data =>
    obtain ⟨href, -, hw, hk⟩ := hi
    have hfirst : ∀ j ∈ pre, j.dataTable? = none := by
      intro j hj
      have := hprec j hj
      cases j <;> first | rfl | cases this
    have hcpre : ∀ j ∈ pre, j.Canonical files names := fun j hj => hc j (by simp [hsplit, hj])
    have hmode := mode_trailAfter_ne_tags hcpre
    have hkinds : ∀ j ∈ pre, (∃ c : Comment, j = .comment c ∧ c.isBlank) ∨ j.tags?.isSome := by
      intro j hj
      have hbefore := hprec j hj
      have hj := hcpre j hj
      cases j with
      | comment c => exact .inl ⟨c, rfl, hj⟩
      | tags => exact .inr rfl
      | step | dataTable | scenario | tearDown => cases hbefore
    obtain ⟨htable, hopen⟩ := trailAfter_blank_or_tags hkinds
    refine ⟨hne, hfirst, hmode, ?_⟩
    rw [href]
    exact ⟨hsection, htable, hopen, hw, hk⟩
  | scenario heading items => cases h.after (.scenario heading items) (by simp [hsplit]) .context
  | tearDown t => cases h.after (.tearDown t) (by simp [hsplit]) .context

/-- The items of a canonical scenario fit. -/
theorem fitAll_inside (hi : ∀ j ∈ items, j.CanonicalIn files names)
    (htags : (items.filterMap Item.tags?).length ≤ 1) :
    FitAll (Item.FitsInScenario files names) [] items := by
  refine fitAll_of_split fun pre j post hsplit => ?_
  have hj := hi j (by simp [hsplit])
  rw [List.nil_append]
  cases j with
  | comment c => exact .inl hj
  | step t => exact hj.2
  | tags t =>
    refine ⟨hj.2, List.any_eq_false.2 fun k hk hsome => ?_⟩
    obtain ⟨first, hfirst⟩ := Option.isSome_iff_exists.1 hsome
    have hpos : 0 < (pre.filterMap Item.tags?).length :=
      List.length_pos_of_mem (List.mem_filterMap.2 ⟨k, hk, hfirst⟩)
    have hlast : (Item.tags t :: post).filterMap Item.tags? = t :: post.filterMap Item.tags? := rfl
    rw [hsplit, List.filterMap_append, hlast, List.length_append, List.length_cons] at htags
    omega
  | dataTable | scenario | tearDown => cases hj

/-- A scenario fits behind other scenarios and what stands in front of them. -/
theorem fits_scenario {h : Heading} (hi : (Item.scenario h items).Canonical files names)
    (hnew : ∀ j ∈ before, ∀ s ∈ j.scenario?, s.heading.title.lower ≠ h.title.lower)
    (hnames : namesOf before = names) : (Item.scenario h items).Fits files before := by
  obtain ⟨hheading, hitems, htags, -⟩ := hi
  refine ⟨hheading, hnew, ?_⟩
  rw [hnames]
  exact fitAll_inside hitems htags

theorem IsBack.dataTable? (h : IsBack items) : ∀ j ∈ items, j.dataTable? = none := by
  obtain rfl | ⟨marker, others, rfl, hothers⟩ := h
  · exact fun j hj => by cases hj
  · refine List.forall_mem_cons.2 ⟨rfl, fun j hj => ?_⟩
    rcases hothers j hj with hj | hj <;> cases j <;> first | rfl | cases hj

/-- The teardown fits behind the scenarios. -/
theorem IsBack.fitAll (h : IsBack items) (hc : ∀ j ∈ items, j.Canonical files names)
    (hmode : (trailAfter before).mode ≠ .tags) (hnames : namesOf before = names) :
    FitAll (Item.Fits files) before items := by
  obtain rfl | ⟨marker, others, rfl, hothers⟩ := h
  · trivial
  obtain ⟨hmarker, hc⟩ := List.forall_mem_cons.1 hc
  refine ⟨⟨hmode, hmarker⟩, fitAll_of_split fun pre j post hsplit => ?_⟩
  have hpre : ∀ k ∈ pre, k.step?.isSome ∨ k.comment?.isSome := fun k hk =>
    hothers k (by simp [hsplit, hk])
  have hsection : sectionAfter (before ++ [.tearDown marker] ++ pre) = .tearDown := by
    rw [sectionAfter_append, sectionAfter_concat]
    · rfl
    · intro k hk current
      rcases hpre k hk with hk | hk <;> cases k <;> first | rfl | cases hk
  have hne : sectionAfter (before ++ [.tearDown marker] ++ pre) ≠ .scenario := by
    rw [hsection]
    decide
  have hnames : namesOf (before ++ [.tearDown marker] ++ pre) = names := by
    rw [namesOf_append, namesOf_append, hnames]
    · simp [Item.dataTable?]
    · intro k hk
      rcases hpre k hk with hk | hk <;> cases k <;> first | rfl | cases hk
  have hj := hc j (by simp [hsplit])
  rcases hothers j (by simp [hsplit]) with hkind | hkind <;> cases j <;> cases hkind
  · refine ⟨hne, ?_⟩
    rw [hnames]
    exact hj.2
  · exact ⟨hne, .inl hj⟩

end

namespace Document.Canonical
variable {files : FileSource} {d : Document}

theorem flawless (h : d.Canonical files) : d.flaws = [] := by
  refine flaws_eq_nil_iff.2 ⟨h.nonempty, ?_, fun data hdata => ?_, fun s hs => ?_⟩
  · obtain ⟨heading, hheading, htight, hne, -⟩ := h.heading
    refine ⟨heading, hheading, ?_⟩
    rwa [Text.trim_eq_self_iff.2 htight]
  · obtain ⟨i, hi, hdata⟩ := List.exists_of_findSome?_eq_some hdata
    have hi := h.items i hi
    cases i <;> cases hdata
    obtain ⟨-, hrows, -⟩ := hi
    exact fun hnone => by omega
  · obtain ⟨i, hi, hs⟩ := List.mem_filterMap.1 hs
    have hi := h.items i hi
    cases i <;> cases hs
    exact hi.2.2.2

/-- A scenario has a title that no scenario before it has. -/
theorem title_new (h : d.Canonical files) {before after items : List Item} {heading : Heading}
    (hsplit : d.items = before ++ .scenario heading items :: after) :
    ∀ i ∈ before, ∀ s ∈ i.scenario?, s.heading.title.lower ≠ heading.title.lower := by
  intro i hi s hs
  have hscenarios : d.scenarios = before.filterMap Item.scenario? ++
      ⟨heading, items⟩ :: after.filterMap Item.scenario? := by
    rw [scenarios, hsplit, List.filterMap_append]
    rfl
  have hdistinct := h.distinct
  rw [hscenarios, List.map_append, List.nodup_append] at hdistinct
  exact hdistinct.2.2 _ (List.mem_map_of_mem (List.mem_filterMap.2 ⟨i, hi, hs⟩)) _
    List.mem_cons_self

/-- **The items of a canonical document fit**, because of their order. -/
theorem fitAll (h : d.Canonical files) : FitAll (Item.Fits files) [] d.items := by
  obtain ⟨front, middle, back, hitems, hfront, hmiddle, hback⟩ := h.order
  have hc := h.items
  rw [hitems, List.forall_mem_append, List.forall_mem_append] at hc
  obtain ⟨⟨hcfront, hcmiddle⟩, hcback⟩ := hc
  -- the data table stands in front, so behind it the declared names do not change
  have hnone : ∀ i ∈ middle, i.dataTable? = none := by
    intro i hi
    have hi := hmiddle i hi
    cases i <;> first | rfl | cases hi
  have hnames : d.names = namesOf front := by
    have hall : d.names = namesOf d.items := rfl
    rw [hall, hitems, namesOf_append hback.dataTable?, namesOf_append hnone]
  rw [hitems]
  refine fitAll_append.2 ⟨fitAll_append.2 ⟨?_, ?_⟩, ?_⟩
  · refine fitAll_of_split fun pre i post hsplit => ?_
    refine hfront.fits hsplit hcfront fun hbehind => ?_
    rw [hnames, hsplit, namesOf_append hbehind, List.nil_append]
  · refine fitAll_of_split fun pre i post hsplit => ?_
    have hi := hcmiddle i (by simp [hsplit])
    have hkind := hmiddle i (by simp [hsplit])
    cases i <;> cases hkind
    next heading items =>
      have hall : d.items = front ++ pre ++ .scenario heading items :: (post ++ back) := by
        rw [hitems, hsplit]
        simp
      refine fits_scenario hi (h.title_new hall) ?_
      rw [hnames]
      exact namesOf_append fun j hj => hnone j (by simp [hsplit, hj])
  · rw [List.nil_append]
    refine hback.fitAll hcback ?_ ?_
    · exact mode_trailAfter_ne_tags (List.forall_mem_append.2 ⟨hcfront, hcmiddle⟩)
    · rw [hnames, namesOf_append hnone]

theorem writable (h : d.Canonical files) : d.Writable files := ⟨h.heading, h.fitAll, h.flawless⟩

end Document.Canonical

/-! ## Comments of the document that is read back -/

namespace Document
variable {files : FileSource} {d d' : Document}

theorem itemComments_bare (i : Item) :
    (itemComments i.bare).map Comment.text = (itemComments i).map Comment.text := by
  have hcomment : ∀ i : Item, i.bare.comment?.map Comment.text = i.comment?.map Comment.text := by
    intro i
    cases i <;> rw [Item.bare] <;> rfl
  cases i with
  | scenario heading items =>
    simp only [Item.bare, itemComments, bareAll_eq_map, List.filterMap_map, List.map_filterMap,
      Function.comp_def, hcomment]
  | comment | step | tags | dataTable | tearDown =>
    rw [Item.bare]
    rfl

/-- Documents with one bare form have comments with the same texts. -/
theorem text_comments_congr (h : d'.bare = d.bare) :
    d'.comments.map Comment.text = d.comments.map Comment.text := by
  have hbare : ∀ d : Document, d.bare.comments.map Comment.text = d.comments.map Comment.text := by
    intro d
    simp only [comments, bare, bareAll_eq_map, List.flatMap_map, List.map_flatMap,
      itemComments_bare]
  rw [← hbare, h, hbare]

theorem Canonical.isBlank (h : d.Canonical files) : ∀ c ∈ d.comments, c.isBlank := by
  intro c hc
  obtain ⟨i, hi, hc⟩ := List.mem_flatMap.1 hc
  have hi := h.items i hi
  cases i with
  | comment c' =>
    rw [List.mem_singleton.1 hc]
    exact hi
  | scenario heading items =>
    obtain ⟨j, hj, hc⟩ := List.mem_filterMap.1 hc
    have hj := hi.2.1 j hj
    cases j <;> cases hc
    exact hj
  | step | tags | dataTable | tearDown => cases hc

end Document

/-- No line without the blanks at its end is the text of a blank line. -/
theorem trimEnd_ne_blankLine (t : Text) : t.trimEnd ≠ blankLine := by
  intro h
  have hblank : ¬ Text.isBlank '\n' := Text.getLast?_trimEnd (t := t) (by rw [h]; rfl)
  exact hblank (by decide)

/-- **Parsing undoes formatting on canonical documents.** What any layout writes for a canonical
document is accepted without a warning, whatever concepts are known. The document that is read is
the one that was written, up to line numbers and source lines; then its calls of known concepts are
expanded. -/
theorem Layout.parse_canonical {files : FileSource} {d : Document} (h : d.Canonical files)
    (lay : Layout) :
    ∃ again : Document, again.bare = d.bare ∧ again.Alone ∧ ∀ dictionary : Dictionary,
      Document.parse (lay.document d) d.fileName dictionary files =
        .ok ⟨dictionary.expandDocument again, []⟩ := by
  obtain ⟨tokens, read, htokens, hread, hbare⟩ := exists_ofTokens_document h.writable lay
  have hquiet : read.warnings = [] := by
    rw [List.eq_nil_iff_forall_not_mem]
    intro x hx
    -- the line of a warning would be a comment that is not blank
    obtain ⟨c, hc, -, hkept⟩ := Document.warned_of_ofTokens hread x hx
    have htext : c.text ∈ d.comments.map Comment.text := by
      rw [← Document.text_comments_congr hbare]
      exact List.mem_map_of_mem hc
    obtain ⟨c', hc', htext⟩ := List.mem_map.1 htext
    have hblank : c'.text = blankLine := by simpa [Comment.isBlank] using h.isBlank c' hc'
    obtain ⟨line, -, hline⟩ := Option.map_eq_some_iff.1 hkept
    exact trimEnd_ne_blankLine line (hline.trans (htext.symm.trans hblank))
  refine ⟨read.document, hbare, Document.alone_of_ofTokens hread, fun dictionary => ?_⟩
  rw [parse_of_ofTokens htokens hread dictionary, hquiet]

/-! ## A document with an item of every kind -/

/-- The context step of `house`, which refers to the data table. -/
def unlock : Step := ⟨0, "unlock \x7b\x7d".toList, [], [.dynamic "room".toList], false⟩

/-- A step with a table below it, one cell of which refers to the data table. -/
def air : Step :=
  (⟨0, "air \x7b\x7d".toList, [], [.literal "all \"rooms\"".toList], false⟩ : Step).addInlineTable
    ⟨0, [⟨"room".toList, [.dynamic "room".toList, .literal "a|b".toList]⟩]⟩

def house : Document where
  fileName := []
  heading := some ⟨"House".toList, 0, .spec⟩
  items :=
    [.tags ⟨["daily".toList, "indoors".toList], 0⟩, .comment ⟨blankLine, 0⟩,
      .dataTable
        ⟨⟨0, [⟨"room".toList, [.literal "attic".toList, .literal "cellar".toList]⟩]⟩, none⟩,
      .step (.ofStep unlock), .comment ⟨blankLine, 0⟩,
      .scenario ⟨"Morning".toList, 0, .scenario⟩
        [.comment ⟨blankLine, 0⟩, .step (.ofStep air), .tags ⟨["early".toList], 0⟩],
      .tearDown ⟨"____".toList, 0⟩, .comment ⟨blankLine, 0⟩,
      .step (.ofStep ⟨0, "lock up".toList, [], [], false⟩)]

theorem Layout.parse_canonical_house :
    house.Canonical (.ofEntries []) ∧
    ∃ again : Document, again.bare = house.bare ∧ again.Alone ∧
      Document.parse (Layout.document ⟨5⟩ house) [] .empty (.ofEntries []) =
        .ok ⟨Dictionary.empty.expandDocument again, []⟩ := by
  have h : house.Canonical (.ofEntries []) :=
    { heading := ⟨_, rfl, by decide +kernel⟩
      nonempty := by decide +kernel
      items := by decide +kernel
      order := ⟨house.items.take 5, (house.items.drop 5).take 1, house.items.drop 6, rfl,
        ⟨some _, some _, [.ofStep unlock], rfl⟩, by decide +kernel,
        .inr ⟨_, house.items.drop 7, rfl, by decide +kernel⟩⟩
      distinct := by decide +kernel }
  obtain ⟨again, hbare, halone, hparse⟩ := Layout.parse_canonical h ⟨5⟩
  exact ⟨h, again, hbare, halone, hparse .empty⟩

end ScenarioBook
