import Mathlib.Data.List.Induction
import ScenarioBook.Proofs.Layout.Reread

/-!
# Putting items back

The builder, fed with the tokens of a written document, puts each item where it stood. The place
where the next item goes is a `Slot`: the end of the document, or the end of its last scenario. The
tokens of an item fill the slot with the item, up to its places (`Grown`). A line that is kept as a
comment finds the slot as the line before it left it, so it is ignored again and kept again
(`kept_of_fits`).
-/

set_option autoImplicit false

namespace ScenarioBook

/-! ## Slots -/

/-- Where the next item goes. -/
inductive Slot where
  /-- behind the items of the document -/
  | document (outer : List Item)
  /-- behind the items of the last scenario -/
  | scenario (outer : List Item) (heading : Heading) (inner : List Item)

namespace Slot

/-- The items of the document with these items in the slot. -/
def fill : Slot → List Item → List Item
  | document outer, items => outer ++ items
  | scenario outer heading inner, items => outer ++ [.scenario heading (inner ++ items)]

def ignored : Slot → Ignored
  | document outer => .ofDocument outer
  | scenario _ _ inner => .ofScenario inner

/-- The slot takes the items of this section. -/
def IsOpen : Slot → Section → Prop
  | document outer, current => current = sectionAfter outer ∧ current ≠ .scenario
  | scenario _ _ _, current => current = .scenario

end Slot

theorem sectionAfter_ne_preamble (items : List Item) : sectionAfter items ≠ .preamble := by
  induction items using List.reverseRecOn with
  | nil => decide
  | append_singleton items i ih =>
    rw [sectionAfter_concat]
    cases i with
    | scenario | tearDown => exact fun h => by cases h
    | _ => exact ih

theorem isBody_of_context {items : List Item} (h : sectionAfter items = .context) :
    ∀ i ∈ items, i.isBody := by
  induction items using List.reverseRecOn with
  | nil => exact fun _ hi => by cases hi
  | append_singleton items i ih =>
    rw [sectionAfter_concat] at h
    cases i with
    | scenario | tearDown => cases h
    | _ => exact List.forall_mem_append.2 ⟨ih h, fun _ hi => by rw [List.mem_singleton.1 hi]; rfl⟩

theorem dropWhile_ne_nil_of_tearDown {items : List Item} (h : sectionAfter items = .tearDown) :
    items.dropWhile Item.isBody ≠ [] := by
  induction items using List.reverseRecOn with
  | nil => cases h
  | append_singleton items i ih =>
    rw [sectionAfter_concat] at h
    rw [List.dropWhile_append]
    split
    case isTrue hnil =>
      cases i with
      | tearDown t => simp [Item.isBody, Item.tearDown?]
      | scenario => cases h
      | _ => exact absurd (List.isEmpty_iff.1 hnil) (ih h)
    case isFalse => simp

theorem afterBody_concat {d : Document} {outer : List Item} {i : Item}
    (h : sectionAfter outer = .tearDown) (hd : d.items = outer ++ [i]) :
    d.body = outer.takeWhile Item.isBody ∧ d.afterBody = outer.dropWhile Item.isBody ++ [i] := by
  have hafter : d.afterBody = outer.dropWhile Item.isBody ++ [i] := by
    rw [Document.afterBody, hd, List.dropWhile_append,
      if_neg (by simpa using dropWhile_ne_nil_of_tearDown h)]
  have hsplit := d.body_append_afterBody
  rw [hafter, hd, ← List.append_assoc] at hsplit
  refine ⟨List.append_cancel_right ((List.append_cancel_right hsplit).trans ?_), hafter⟩
  exact List.takeWhile_append_dropWhile.symm

/-- A step or a table still takes table lines. -/
def Place.isOpen (p : Place) : Bool := p.stepOpen || p.tableOpen

namespace Builder

variable {b : Builder} {slot : Slot}

theorem ne_preamble (h : slot.IsOpen b.place.current) : b.place.current ≠ .preamble := by
  cases slot with
  | document outer => rw [h.1]; exact sectionAfter_ne_preamble outer
  | scenario => rw [show b.place.current = .scenario from h]; decide

theorem document_add (h : slot.IsOpen b.place.current) (hb : b.document.items = slot.fill [])
    (i : Item) : (b.add i).document = { b.document with items := slot.fill [i] } := by
  cases slot with
  | document outer =>
    simp only [add, edit, if_neg h.2, Document.addItem, hb, Slot.fill, List.append_nil]
  | scenario outer heading inner =>
    have hcurrent : b.place.current = .scenario := h
    have hupdate : updateLast (Item.mapScenario? (· ++ [i])) b.document.items =
        outer ++ [.scenario heading (inner ++ [i])] := by
      rw [hb, Slot.fill, List.append_nil]
      exact updateLast_concat rfl
    simp only [add, edit, if_pos hcurrent, Document.addToScenario, Document.mapLatestScenario,
      hupdate, Slot.fill]

/-- The step in the slot is the one that takes tables. -/
theorem document_mapOpenStep {t : StepTree} (h : slot.IsOpen b.place.current)
    (hb : b.document.items = slot.fill [.step t]) (f : Step → Step) :
    (b.mapOpenStep f).document =
      { b.document with items := slot.fill [.step (t.mapStep f)] } := by
  have hstep : ∀ items : List Item, updateLast (Item.mapStep? (·.mapStep f)) (items ++ [.step t]) =
      items ++ [.step (t.mapStep f)] := fun items => updateLast_concat rfl
  cases slot with
  | document outer =>
    obtain ⟨hcurrent, hne⟩ := h
    rw [Slot.fill] at hb ⊢
    simp only [mapOpenStep, edit]
    cases hs : b.place.current with
    | scenario => exact absurd hs hne
    | preamble => exact absurd (hcurrent.symm.trans hs) (sectionAfter_ne_preamble outer)
    | context =>
      have hall := isBody_of_context (hcurrent.symm.trans hs)
      have hbody : b.document.body = outer ++ [.step t] := by
        rw [Document.body, hb, List.takeWhile_append_of_pos hall]
        rfl
      have hafter : b.document.afterBody = [] := by
        rw [Document.afterBody, hb, List.dropWhile_append_of_pos hall]
        rfl
      simp only [Document.mapLatestContext, hbody, hafter, hstep, List.append_nil]
    | tearDown =>
      obtain ⟨hbody, hafter⟩ := afterBody_concat (hcurrent.symm.trans hs) hb
      simp only [Document.mapLatestTearDownStep, hbody, hafter, hstep]
      rw [← List.append_assoc, List.takeWhile_append_dropWhile]
  | scenario outer heading inner =>
    have hcurrent : b.place.current = .scenario := h
    rw [Slot.fill] at hb ⊢
    have hupdate : updateLast (Item.mapScenario? (updateLast (Item.mapStep? (·.mapStep f))))
        b.document.items = outer ++ [.scenario heading (inner ++ [.step (t.mapStep f)])] := by
      rw [hb]
      refine updateLast_concat ?_
      rw [Item.mapScenario?, hstep]
    simp only [mapOpenStep, edit, hcurrent, Document.mapLatestStep, Document.mapLatestScenario,
      hupdate]

/-! ## Kept lines -/

/-- The token is kept as a comment, with at most a warning. -/
structure Kept (b : Builder) (t : Token) (b' : Builder) : Prop where
  document : b'.document = (b.keep t).document
  current : b'.place.current = b.place.current
  isOpen : b'.place.isOpen → b.place.isOpen
  clean : Clean b.diagnostics → Clean b'.diagnostics

section
variable {t : Token}

theorem kept_comment : Kept b t (b.comment t) :=
  ⟨rfl, rfl, (fun h => by cases h), id⟩

theorem kept_ignore {p : Problem} (hp : p.severity = .warning) : Kept b t (b.ignore t p) := by
  refine ⟨rfl, rfl, id, fun h => clean_append.2 ⟨h, fun d hd => ?_⟩⟩
  rw [List.mem_singleton.1 hd, isError_problem, hp]
  rfl

theorem Kept.close {b' : Builder} (h : Kept b t b') : Kept b t b'.close :=
  ⟨h.document, h.current, (fun h => by cases h), h.clean⟩

/-- Tags go to the slot, or they are ignored there. -/
theorem tags_eq (h : slot.IsOpen b.place.current) (hb : b.document.items = slot.fill [])
    (values : List Text) :
    ∃ p, p.severity = .warning ∧ b.tags t values =
      (if slot.ignored.tags then b.ignore t p else b.add (.tags ⟨values, t.lineNo⟩)).close := by
  cases slot with
  | document outer =>
    have hsome : b.document.tags?.isSome = (Slot.document outer).ignored.tags := by
      rw [Document.tags?, hb, List.isSome_findSome?, Slot.fill, List.append_nil]
      rfl
    refine ⟨.repeatedTags, rfl, ?_⟩
    simp only [Builder.tags, if_neg h.2, hsome]
  | scenario outer heading inner =>
    have hsome : (b.document.latestScenario?.bind Scenario.tags?).isSome =
        (Slot.scenario outer heading inner).ignored.tags := by
      rw [Document.latestScenario?, Document.scenarios, hb]
      simp [Slot.fill, Item.scenario?, Scenario.tags?, List.isSome_findSome?, Slot.ignored,
        Ignored.ofScenario]
    refine ⟨.repeatedScenarioTags, rfl, ?_⟩
    simp only [Builder.tags, if_pos (show b.place.current = .scenario from h), hsome]

/-- A table that no step takes is kept, if it has no place. -/
theorem kept_tableHeader (h : slot.IsOpen b.place.current) (hb : b.document.items = slot.fill [])
    (hi : slot.ignored.table) (hclosed : b.place.isOpen = false) (cells : List Text) :
    Kept b t (b.tableHeader t cells) := by
  have hclosed : b.place.stepOpen = false := (Bool.or_eq_false_iff.1 hclosed).1
  cases slot with
  | document outer =>
    obtain ⟨hcurrent, hne⟩ := h
    rw [Slot.fill, List.append_nil] at hb
    rw [Slot.ignored, Ignored.ofDocument] at hi
    cases hs : b.place.current with
    | scenario => exact absurd hs hne
    | preamble => exact absurd (hcurrent.symm.trans hs) (sectionAfter_ne_preamble outer)
    | context =>
      rw [← hcurrent, hs] at hi
      have hsome : b.document.dataTable?.isSome := by
        rw [Document.dataTable?, hb, List.isSome_findSome?]
        exact hi
      have hnone : ¬ b.document.dataTable?.isNone := by
        simpa [Option.isSome_iff_ne_none] using hsome
      simp only [tableHeader, hs, hclosed, if_neg hnone]
      exact kept_ignore rfl
    | tearDown =>
      rw [← hcurrent, hs] at hi
      have hnone : b.document.latestTearDownStep? = none := by
        rw [Document.latestTearDownStep?, Document.tearDownSteps, Document.afterBody, hb]
        simpa [List.filterMap_eq_nil_iff] using hi
      simp only [tableHeader, hs, hnone]
      exact kept_comment
  | scenario outer heading inner =>
    have hcurrent : b.place.current = .scenario := h
    simp only [tableHeader, hcurrent, hclosed]
    exact kept_ignore rfl

/-- A `table:` line is kept, if it has no place. -/
theorem kept_dataTable (h : slot.IsOpen b.place.current) (hb : b.document.items = slot.fill [])
    (hi : slot.ignored.data) {files : FileSource} {path : Text}
    (hok : (Reference.dataTable files path).isOk) : Kept b t (b.dataTable files t path) := by
  unfold Builder.dataTable
  cases hr : Reference.dataTable files path with
  | error fault =>
    rw [hr] at hok
    cases hok
  | ok table =>
    simp only
    cases slot with
    | document outer =>
      have hsome : b.document.dataTable?.isSome := by
        rw [Document.dataTable?, hb, List.isSome_findSome?, Slot.fill, List.append_nil]
        exact hi
      rw [if_pos hsome]
      split <;> exact kept_ignore rfl
    | scenario outer heading inner =>
      rw [if_pos (.inr h)]
      exact kept_ignore rfl

end

/-! ## Comments and tags -/

/-- The slot of `b` is filled with the item, up to its places, and no more is open than the item
leaves open. -/
structure Grown (slot : Slot) (w : Trail) (i : Item) (b b' : Builder) : Prop where
  document : ∃ i', i'.bare = i.bare ∧ b'.document = { b.document with items := slot.fill [i'] }
  current : b'.place.current = b.place.current
  isOpen : b'.place.isOpen → (i.trail w).isOpen
  clean : Clean b.diagnostics → Clean b'.diagnostics

section
variable {files : FileSource} {before : List Item} {ts : List Token}

/-- The token of a comment that fits is kept again. -/
theorem kept_of_fits {c : Comment} {t : Token} (h : slot.IsOpen b.place.current)
    (hb : b.document.items = slot.fill []) (hc : c.Fits files slot.ignored before)
    (hopen : b.place.isOpen → (trailAfter before).isOpen)
    (ht : t.content = c.content (trailAfter before).mode) :
    Kept b t (accept files b t) ∧
      ((accept files b t).place.isOpen → (c.shape.trail (trailAfter before)).isOpen) := by
  have hplain : c.content (trailAfter before).mode = .comment c.text →
      Kept b t (accept files b t) ∧
        ((accept files b t).place.isOpen → (c.shape.trail (trailAfter before)).isOpen) := by
    intro hcontent
    rw [accept, ht, hcontent]
    exact ⟨kept_comment, fun h => by cases h⟩
  rw [Comment.content] at ht hplain
  rcases hc with hblank | ⟨-, -, hstays⟩
  · exact hplain (by rw [Comment.shape_of_isBlank hblank])
  cases hs : c.shape with rw [hs] at ht hplain hstays
  | prose | underline => exact hplain rfl
  | tags text =>
    obtain ⟨p, hp, heq⟩ := tags_eq (t := t) h hb (splitTags text)
    rw [if_pos (show slot.ignored.tags from hstays)] at heq
    rw [accept, ht]
    simp only [heq]
    exact ⟨(kept_ignore hp).close, fun h => by cases h⟩
  | tableLine =>
    -- nothing takes the line: a row finds no open table, and a header no step that is open
    obtain ⟨-, hclosed, hheader⟩ := hstays
    have hclosed : b.place.isOpen = false := by
      rw [Bool.eq_false_iff]
      intro hb
      rw [hopen hb] at hclosed
      cases hclosed
    have hkept : Kept b t (accept files b t) := by
      rw [accept, ht]
      by_cases hm : (trailAfter before).mode = .table
      · simp only [if_pos hm, tableRow, (Bool.or_eq_false_iff.1 hclosed).2]
        exact kept_comment
      · simp only [if_neg hm]
        exact kept_tableHeader h hb (hheader hm).1 hclosed _
    exact ⟨hkept, fun ho => by rw [hkept.isOpen ho] at hclosed; cases hclosed⟩
  | dataTable path =>
    -- the line leaves open what was open, for the lexer as for the builder
    obtain ⟨-, -, hdata, hok⟩ := hstays
    have hkept : Kept b t (accept files b t) := by
      rw [accept, ht]
      exact kept_dataTable h hb hdata hok
    exact ⟨hkept, fun ho => hopen (hkept.isOpen ho)⟩
  | blank | heading | step | tearDown => cases hstays

theorem grown_comment {c : Comment} (h : slot.IsOpen b.place.current)
    (hb : b.document.items = slot.fill []) (hc : c.Fits files slot.ignored before)
    (hopen : b.place.isOpen → (trailAfter before).isOpen)
    (hts : Item.ReadAs (trailAfter before) (.comment c) ts) :
    Grown slot (trailAfter before) (.comment c) b (ts.foldl (accept files) b) := by
  rw [Item.ReadAs] at hts
  obtain ⟨t, rfl, ht, hkeep⟩ := hts
  obtain ⟨hkept, hopen⟩ := kept_of_fits h hb hc hopen ht
  refine ⟨⟨.comment ⟨c.text, t.lineNo⟩, ?_, ?_⟩, hkept.current, ?_, hkept.clean⟩
  · rw [Item.bare, Item.bare]
  · rw [List.foldl_cons, List.foldl_nil, hkept.document, keep, hkeep, document_add h hb]
  · rwa [Item.trail]

theorem grown_tags {tags : Tags} (w : Trail) (h : slot.IsOpen b.place.current)
    (hb : b.document.items = slot.fill []) (hfirst : slot.ignored.tags = false)
    (hts : Item.ReadAs w (.tags tags) ts) :
    Grown slot w (.tags tags) b (ts.foldl (accept files) b) := by
  rw [Item.ReadAs] at hts
  obtain ⟨t, rfl, ht⟩ := List.map_eq_singleton_iff.1 hts
  have haccept : accept files b t = (b.add (.tags ⟨tags.values, t.lineNo⟩)).close := by
    obtain ⟨p, -, heq⟩ := tags_eq (t := t) h hb tags.values
    rw [accept, ht]
    simp only [heq, hfirst]
    rfl
  rw [List.foldl_cons, List.foldl_nil, haccept]
  refine ⟨⟨.tags ⟨tags.values, t.lineNo⟩, ?_, document_add h hb _⟩, rfl, (fun h => by cases h), id⟩
  rw [Item.bare, Item.bare]

end

end Builder

end ScenarioBook
