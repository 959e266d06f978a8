import Mathlib.Data.List.TakeWhile
import ScenarioBook.Document.Builder
import ScenarioBook.Proofs.Document.Checked

/-!
# Kinds of items

Much about a document can be told from the kinds of its items: how often a kind occurs, which titles
are in use, and where the teardown begins. A change that keeps the kinds keeps all this
(`Document.SameShape`), and a new item adds to it at one end: to the body as long as there is no
teardown, and to the teardown from then on (`Document.body_addItem`, `Document.afterBody_addItem`).
-/

set_option autoImplicit false

namespace ScenarioBook

namespace Item

/-- What an item is. A scenario is known by its title, up to case. -/
inductive Kind where
  | comment
  | step
  | tags
  | dataTable
  | tearDown
  | scenario (title : Text)
deriving DecidableEq

def kind : Item → Kind
  | .comment _ => .comment
  | .step _ => .step
  | .tags _ => .tags
  | .dataTable _ => .dataTable
  | .tearDown _ => .tearDown
  | .scenario heading _ => .scenario heading.title.lower

/-- The number of `tags:` items in a scenario. -/
def tagCount : Item → Nat
  | .scenario _ items => (items.filterMap Item.tags?).length
  | _ => 0

/-- The title of a scenario. -/
def Kind.title? : Kind → Option Text
  | .scenario title => some title
  | _ => none

/-- A view that shows the items of one kind shows as many as there are. -/
theorem length_filterMap_eq_count {β : Type} {view : Item → Option β} {k : Kind}
    (h : ∀ i, (view i).isSome = (i.kind == k)) (items : List Item) :
    (items.filterMap view).length = (items.map kind).count k := by
  rw [List.length_filterMap_eq_countP, List.count_eq_countP, List.countP_map]
  exact List.countP_congr fun i _ => by rw [h, Function.comp_apply]

theorem length_dataTables (items : List Item) :
    (items.filterMap Item.dataTable?).length = (items.map kind).count .dataTable :=
  length_filterMap_eq_count (fun i => by cases i <;> rfl) items

theorem length_tags (items : List Item) :
    (items.filterMap Item.tags?).length = (items.map kind).count .tags :=
  length_filterMap_eq_count (fun i => by cases i <;> rfl) items

theorem isSome_mapStep? (f : StepTree → StepTree) (i : Item) :
    (i.mapStep? f).isSome = i.step?.isSome := by
  cases i <;> rfl

theorem isSome_mapDataTable? (f : Table → Table) (i : Item) :
    (i.mapDataTable? f).isSome = i.dataTable?.isSome := by
  cases i <;> rfl

theorem isSome_mapScenario? (f : List Item → List Item) (i : Item) :
    (i.mapScenario? f).isSome = i.scenario?.isSome := by
  cases i <;> rfl

theorem kind_mapStep? {f : StepTree → StepTree} {i i' : Item} (h : i.mapStep? f = some i') :
    i'.kind = i.kind := by
  cases i <;> cases h
  rfl

end Item

namespace Document
section
variable {d d' : Document}

theorem titles_eq (d : Document) :
    (d.scenarios.map fun s => s.heading.title.lower) =
      (d.items.map Item.kind).filterMap Item.Kind.title? := by
  rw [scenarios, List.map_filterMap, List.filterMap_map]
  congr 1
  funext i
  cases i <;> rfl

theorem scenarios_eq_nil_iff :
    d.scenarios = [] ↔ (d.items.map Item.kind).filterMap Item.Kind.title? = [] := by
  rw [← titles_eq, List.map_eq_nil_iff]

theorem isSome_tearDown?_iff : d.tearDown?.isSome ↔ .tearDown ∈ d.items.map Item.kind := by
  rw [tearDown?, List.findSome?_isSome_iff, List.mem_map]
  refine exists_congr fun i => and_congr_right fun _ => ?_
  cases i <;> simp [Item.tearDown?, Item.kind]

theorem isSome_tearDown?_of_kinds
    (h : d'.items.map Item.kind = d.items.map Item.kind) (hs : d'.tearDown?.isSome) :
    d.tearDown?.isSome := by
  rw [isSome_tearDown?_iff] at hs ⊢
  rwa [← h]

theorem isSome_tearDown?_of_addItem {i : Item} (hi : i.kind ≠ .tearDown)
    (hs : (d.addItem i).tearDown?.isSome) : d.tearDown?.isSome := by
  rw [isSome_tearDown?_iff] at hs ⊢
  rw [addItem, List.map_append, List.mem_append] at hs
  exact hs.resolve_right fun hin => hi (List.mem_singleton.1 hin).symm

/-! ## Changes in place -/

/-- Both documents have the same kinds of items, and as many tags in each scenario. -/
structure SameShape (d d' : Document) : Prop where
  kinds : d'.items.map Item.kind = d.items.map Item.kind
  counts : d'.items.map Item.tagCount = d.items.map Item.tagCount

theorem tagCount_mapStep? {f : StepTree → StepTree} {i i' : Item} (h : i.mapStep? f = some i') :
    i'.tagCount = i.tagCount := by
  cases i <;> cases h
  rfl

theorem kinds_mapLatestScenario (f : List Item → List Item) :
    (d.mapLatestScenario f).items.map Item.kind = d.items.map Item.kind := by
  refine map_updateLast fun i i' h => ?_
  cases i <;> cases h
  rfl

/-- The last scenario is changed in its place. -/
theorem exists_mapLatestScenario {s : Scenario} (h : d.latestScenario? = some s)
    (f : List Item → List Item) :
    ∃ before after, d.items = before ++ .scenario s.heading s.items :: after ∧
      (d.mapLatestScenario f).items = before ++ .scenario s.heading (f s.items) :: after ∧
      (d.mapLatestScenario f).latestScenario? = some { s with items := f s.items } := by
  obtain ⟨before, i, i', after, hitems, hs, hi, hnil, hupd⟩ :=
    exists_updateLast_of_getLast? (Item.isSome_mapScenario? f) h
  cases i <;> cases hs
  cases hi
  refine ⟨before, after, hitems, hupd, ?_⟩
  simp [latestScenario?, scenarios, mapLatestScenario, hupd, Item.scenario?, hnil]

theorem mapLatestScenario_of_none (h : d.latestScenario? = none) (f : List Item → List Item) :
    d.mapLatestScenario f = d := by
  rw [mapLatestScenario, updateLast_of_getLast? (Item.isSome_mapScenario? f) h]

/-- The items of a scenario keep their tags. -/
theorem sameShape_mapLatestScenario {f : List Item → List Item}
    (hf : ∀ items, (f items).filterMap Item.tags? = items.filterMap Item.tags?) :
    d.SameShape (d.mapLatestScenario f) := by
  refine ⟨kinds_mapLatestScenario f, map_updateLast fun i i' h => ?_⟩
  cases i <;> cases h
  rw [Item.tagCount, Item.tagCount, hf]

theorem sameShape_mapLatestStep (f : StepTree → StepTree) : d.SameShape (d.mapLatestStep f) := by
  refine sameShape_mapLatestScenario fun items => ?_
  have htags : (updateLast (Item.mapStep? f) items).map Item.tags? = items.map Item.tags? := by
    refine map_updateLast fun i i' h => ?_
    cases i <;> cases h
    rfl
  simpa only [List.filterMap_map, Function.id_comp] using congrArg (List.filterMap id) htags

theorem sameShape_mapLatestContext (f : StepTree → StepTree) :
    d.SameShape (d.mapLatestContext f) where
  kinds := map_items_mapLatestContext fun _ _ => Item.kind_mapStep?
  counts := map_items_mapLatestContext fun _ _ => tagCount_mapStep?

theorem sameShape_mapLatestTearDownStep (f : StepTree → StepTree) :
    d.SameShape (d.mapLatestTearDownStep f) where
  kinds := map_items_mapLatestTearDownStep fun _ _ => Item.kind_mapStep?
  counts := map_items_mapLatestTearDownStep fun _ _ => tagCount_mapStep?

theorem sameShape_mapDataTable (f : Table → Table) : d.SameShape (d.mapDataTable f) := by
  constructor <;> refine map_updateFirst fun i i' h => ?_ <;> cases i <;> cases h <;> rfl

theorem sameShape_mapSteps (f : StepTree → StepTree) : d.SameShape (d.mapSteps f) := by
  have htags : Item.tags? ∘ (fun i => (i.mapStep? f).getD i) = Item.tags? := by
    funext i
    cases i <;> rfl
  constructor <;> rw [mapSteps, List.map_map] <;> refine List.map_congr_left fun i _ => ?_
  · cases i <;> rfl
  · cases i with
    | scenario heading items =>
      rw [Function.comp_apply, mapItemSteps, Item.tagCount, List.filterMap_map, htags,
        Item.tagCount]
    | _ => rfl

theorem sameShape_addToScenario {i : Item} (h : i.tags? = none) :
    d.SameShape (d.addToScenario i) := by
  refine sameShape_mapLatestScenario fun items => ?_
  simp [List.filterMap_append, h]

/-! ## A new item -/

theorem body_of_tearDown?_eq_none (h : d.tearDown? = none) : d.body = d.items := by
  refine List.takeWhile_eq_self_iff.2 fun i hi => ?_
  rw [Item.isBody, List.findSome?_eq_none_iff.1 h i hi]
  rfl

theorem body_addItem (i : Item) :
    (d.addItem i).body =
      if d.tearDown?.isSome then d.body else d.items ++ [i].takeWhile Item.isBody := by
  cases h : d.tearDown? with
  | none =>
    rw [if_neg (by simp), body, addItem, List.takeWhile_append, ← body,
      body_of_tearDown?_eq_none h, if_pos rfl]
  | some marker =>
    obtain ⟨j, hj, hsome⟩ := List.exists_of_findSome?_eq_some h
    have hshort : d.body.length ≠ d.items.length := by
      intro hlen
      have := List.takeWhile_eq_self_iff.1
        ((List.takeWhile_prefix Item.isBody).eq_of_length hlen) j hj
      rw [Item.isBody, hsome] at this
      cases this
    rw [if_pos (Option.isSome_some), body, addItem, List.takeWhile_append, ← body, if_neg hshort]

theorem scenarios_addItem (i : Item) :
    (d.addItem i).scenarios = d.scenarios ++ i.scenario?.toList := by
  rw [scenarios, addItem, List.filterMap_append]
  cases h : i.scenario? <;> simp [scenarios, h]

theorem filterMap_eq_nil_of_findSome? {β : Type} {f : Item → Option β}
    (h : d.items.findSome? f = none) : d.items.filterMap f = [] :=
  List.filterMap_eq_nil_iff.2 (List.findSome?_eq_none_iff.1 h)

/-- Elements of the same kind leave the cut between body and teardown where it is. -/
theorem takeWhile_append_of_map {α : Type} {p : α → Bool} {as as' bs bs' : List α}
    (has : as'.map p = as.map p) (hbs : bs'.map p = bs.map p)
    (h : (as ++ bs).takeWhile p = as) : (as' ++ bs').takeWhile p = as' := by
  induction as generalizing as' with
  | nil =>
    rw [List.map_nil, List.map_eq_nil_iff] at has
    subst has
    cases bs with
    | nil =>
      rw [List.map_nil, List.map_eq_nil_iff] at hbs
      rw [hbs]
      rfl
    | cons b bs =>
      cases bs' with
      | nil => rfl
      | cons b' bs' =>
        rw [List.map_cons, List.map_cons, List.cons.injEq] at hbs
        simp only [List.nil_append, List.takeWhile_cons, hbs.1] at h ⊢
        split at h
        · cases h
        · next hb => rw [if_neg hb]
  | cons a as ih =>
    cases as' with
    | nil => cases has
    | cons a' as' =>
      rw [List.map_cons, List.map_cons, List.cons.injEq] at has
      simp only [List.cons_append, List.takeWhile_cons, has.1] at h ⊢
      split at h
      · next ha =>
        rw [if_pos ha, ih has.2 (List.cons.inj h).2]
      · cases h

theorem takeWhile_body_append_afterBody (d : Document) :
    (d.body ++ d.afterBody).takeWhile Item.isBody = d.body := by
  rw [body_append_afterBody]
  rfl

theorem isBody_mapStep? {f : StepTree → StepTree} (i i' : Item) (h : i.mapStep? f = some i') :
    i'.isBody = i.isBody := by
  cases i <;> cases h
  rfl

theorem body_mapLatestContext (f : StepTree → StepTree) :
    (d.mapLatestContext f).body = updateLast (Item.mapStep? f) d.body :=
  takeWhile_append_of_map (map_updateLast isBody_mapStep?) rfl (takeWhile_body_append_afterBody d)

theorem afterBody_mapLatestTearDownStep (f : StepTree → StepTree) :
    (d.mapLatestTearDownStep f).afterBody = updateLast (Item.mapStep? f) d.afterBody := by
  have hbody : (d.mapLatestTearDownStep f).body = d.body :=
    takeWhile_append_of_map rfl (map_updateLast isBody_mapStep?) (takeWhile_body_append_afterBody d)
  have hsplit := body_append_afterBody (d.mapLatestTearDownStep f)
  rw [hbody] at hsplit
  exact List.append_cancel_left hsplit

theorem afterBody_addItem (i : Item) :
    (d.addItem i).afterBody =
      if d.tearDown?.isSome then d.afterBody ++ [i] else [i].dropWhile Item.isBody := by
  have hsplit := body_append_afterBody (d.addItem i)
  have hsplit' := body_append_afterBody d
  rw [body_addItem] at hsplit
  split
  case isTrue h =>
    rw [if_pos h] at hsplit
    rw [← List.append_right_inj d.body, hsplit, ← List.append_assoc, hsplit']
    rfl
  case isFalse h =>
    rw [if_neg h] at hsplit
    rw [← List.append_right_inj (d.items ++ [i].takeWhile Item.isBody), hsplit,
      List.append_assoc, List.takeWhile_append_dropWhile]
    rfl

theorem contexts_addItem_of_none {i : Item} (h : i.step? = none) :
    (d.addItem i).contexts = d.contexts := by
  rw [contexts, body_addItem]
  split
  case isTrue => rfl
  case isFalse hnone =>
    rw [contexts, body_of_tearDown?_eq_none (by simpa using hnone), List.filterMap_append]
    have hnil : ([i].takeWhile Item.isBody).filterMap Item.step? = [] :=
      List.filterMap_eq_nil_iff.2 fun j hj => by
        rwa [List.mem_singleton.1 ((List.takeWhile_sublist _).subset hj)]
    rw [hnil, List.append_nil]

theorem tearDownSteps_addItem_of_none {i : Item} (h : i.step? = none) :
    (d.addItem i).tearDownSteps = d.tearDownSteps := by
  rw [tearDownSteps, tearDownSteps, afterBody_addItem]
  split
  case isTrue => simp [List.filterMap_append, h]
  case isFalse hnone =>
    have hbody := body_of_tearDown?_eq_none (by simpa using hnone)
    have hempty : d.afterBody = [] := by
      have hsplit := body_append_afterBody d
      rw [hbody] at hsplit
      exact List.append_right_eq_self.1 hsplit
    have hnil : ([i].dropWhile Item.isBody).filterMap Item.step? = [] :=
      List.filterMap_eq_nil_iff.2 fun j hj => by
        rwa [List.mem_singleton.1 ((List.dropWhile_sublist _).subset hj)]
    rw [hnil, hempty]
    rfl

theorem latestContext?_addItem_step (h : d.tearDown? = none) (tree : StepTree) :
    (d.addItem (.step tree)).latestContext? = some tree := by
  have hone : [Item.step tree].takeWhile Item.isBody = [.step tree] := rfl
  rw [latestContext?, contexts, body_addItem, if_neg (by simp [h]), hone, List.filterMap_append]
  exact List.getLast?_concat

theorem isSome_tearDown?_addItem {i : Item} (h : d.tearDown?.isSome) :
    (d.addItem i).tearDown?.isSome := by
  rw [isSome_tearDown?_iff] at h ⊢
  rw [addItem, List.map_append]
  exact List.mem_append_left _ h

theorem dataTable?_addItem {data : DataTable} (h : d.dataTable? = some data) (i : Item) :
    (d.addItem i).dataTable? = some data := by
  rw [dataTable?, addItem, List.findSome?_append, ← dataTable?, h]
  rfl

theorem dataTable?_mapLatestScenario (f : List Item → List Item) :
    (d.mapLatestScenario f).dataTable? = d.dataTable? := by
  have h : (d.mapLatestScenario f).items.map Item.dataTable? = d.items.map Item.dataTable? := by
    refine map_updateLast fun i i' hi => ?_
    cases i <;> cases hi
    rfl
  have hfind := congrArg (List.findSome? id) h
  simp only [List.findSome?_map, Function.id_comp] at hfind
  exact hfind

end

end Document

/-- Changing the open step keeps the shape. -/
theorem Builder.sameShape_mapOpenStep (b : Builder) (f : Step → Step) :
    b.document.SameShape (b.mapOpenStep f).document := by
  simp only [mapOpenStep, edit]
  split
  · exact Document.sameShape_mapLatestStep _
  · exact Document.sameShape_mapLatestTearDownStep _
  · exact Document.sameShape_mapLatestContext _

end ScenarioBook
