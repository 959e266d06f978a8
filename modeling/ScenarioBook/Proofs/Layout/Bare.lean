import ScenarioBook.Layout
import ScenarioBook.Proofs.Document.Accepted

/-!
# Documents without their places

The bare form of an item is the item without line numbers, source lines and expansions. A layout
writes an item and its bare form alike (`item_bare`, `document_bare`), expanding concept calls does
not change the bare form (`bare_expandDocument`), and neither do the flaws of a document depend on
more (`flaws_bare_eq_nil_iff`).
-/

set_option autoImplicit false

namespace ScenarioBook

def Table.bare (t : Table) : Table := { t with lineNo := 0 }

def Arg.bare : Arg → Arg
  | .table t => .table t.bare
  | arg => arg

def Step.bare (s : Step) : Step :=
  { s with lineNo := 0, lineText := [], args := s.args.map Arg.bare }

def Heading.bare (h : Heading) : Heading := { h with lineNo := 0 }

mutual

/-- The item without its place in the source. -/
def Item.bare : Item → Item
  | .comment c => .comment { c with lineNo := 0 }
  | .step t => .step (.ofStep t.step.bare)
  | .tags t => .tags { t with lineNo := 0 }
  | .dataTable d => .dataTable { d with table := d.table.bare }
  | .tearDown t => .tearDown { t with lineNo := 0 }
  | .scenario h items => .scenario h.bare (bareAll items)

def bareAll : List Item → List Item
  | [] => []
  | i :: is => i.bare :: bareAll is

end

theorem bareAll_eq_map (items : List Item) : bareAll items = items.map Item.bare := by
  induction items with
  | nil => rw [bareAll, List.map_nil]
  | cons i is ih => rw [bareAll, List.map_cons, ih]

/-- The document without its places in the source. -/
def Document.bare (d : Document) : Document :=
  { d with heading := d.heading.map Heading.bare, items := bareAll d.items }

/-! ## Layouts -/

def Fragment.bare : Fragment → Fragment
  | .text t => .text t
  | .param arg => .param arg.bare

theorem Step.weave_bare (pieces : List Text) (args : List Arg) :
    weave pieces (args.map Arg.bare) = (weave pieces args).map Fragment.bare := by
  have htext : ∀ piece : Text, (if piece.isEmpty then [] else [Fragment.text piece]).map
      Fragment.bare = if piece.isEmpty then [] else [Fragment.text piece] := by
    intro piece
    split <;> rfl
  induction pieces generalizing args with
  | nil => rfl
  | cons piece pieces ih =>
    cases pieces with
    | nil => simp only [weave, htext]
    | cons next pieces =>
      cases args with
      | nil =>
        have ih := ih []
        rw [List.map_nil] at ih
        simp only [weave, List.map_nil, List.tail_nil, List.map_append, htext, List.map_cons]
        rw [← ih]
        rfl
      | cons arg args =>
        simp only [weave, List.map_cons, List.tail_cons, ih args, List.map_append, htext]
        rfl

namespace Layout

variable (l : Layout)

theorem step_bare (s : Step) : l.step s.bare = l.step s := by
  have hfragment : ∀ f : Fragment, fragment f.bare = fragment f := by
    intro f
    cases f with
    | text => rfl
    | param arg => cases arg <;> rfl
  have hbelow : ∀ f : Fragment, l.below f.bare = l.below f := by
    intro f
    cases f with
    | text => rfl
    | param arg => cases arg <;> rfl
  have hfragments : s.bare.fragments = s.fragments.map Fragment.bare := Step.weave_bare _ _
  simp only [step, hfragments, List.flatMap_map, hfragment, hbelow]

mutual

theorem item_bare : ∀ i : Item, l.item i.bare = l.item i
  | .comment c => by rw [Item.bare, item, item]; rfl
  | .step t => by rw [Item.bare, item, item]; exact l.step_bare t.step
  | .tags t => by rw [Item.bare, item, item]; rfl
  | .dataTable d => by rw [Item.bare, item, item]; rfl
  | .tearDown t => by rw [Item.bare, item, item]
  | .scenario h items => by rw [Item.bare, item, item, allItems_bare items]; rfl

theorem allItems_bare : ∀ is : List Item, l.allItems (bareAll is) = l.allItems is
  | [] => by rw [bareAll]
  | i :: is => by rw [bareAll, allItems, allItems, item_bare i, allItems_bare is]

end

/-- **A layout does not look at the places of a document.** -/
theorem document_bare (d : Document) : l.document d.bare = l.document d := by
  rw [document, document, Document.bare, l.allItems_bare, Option.map_map]
  rfl

end Layout

/-! ## Views -/

namespace Item

variable (i : Item)

@[simp] theorem step?_bare : i.bare.step? = i.step?.map fun t => .ofStep t.step.bare := by
  cases i <;> simp [bare, step?]

@[simp] theorem tags?_bare : i.bare.tags? = i.tags?.map fun t => { t with lineNo := 0 } := by
  cases i <;> simp [bare, tags?]

@[simp] theorem dataTable?_bare :
    i.bare.dataTable? = i.dataTable?.map fun d => { d with table := d.table.bare } := by
  cases i <;> simp [bare, dataTable?]

@[simp] theorem scenario?_bare :
    i.bare.scenario? = i.scenario?.map fun s => ⟨s.heading.bare, bareAll s.items⟩ := by
  cases i <;> simp [bare, scenario?]

@[simp] theorem isBody_bare : i.bare.isBody = i.isBody := by
  cases i <;> simp [bare, isBody, tearDown?]

@[simp] theorem headers?_bare : i.bare.headers? = i.headers? := by
  rw [headers?, dataTable?_bare, Option.map_map]
  rfl

end Item

/-! ## Flaws -/

namespace Document

section
variable (d : Document)

theorem dataTable?_bare :
    d.bare.dataTable? = d.dataTable?.map fun data => { data with table := data.table.bare } := by
  simp [bare, dataTable?, bareAll_eq_map, List.findSome?_map, List.map_findSome?,
    Function.comp_def]

theorem scenarios_bare :
    d.bare.scenarios = d.scenarios.map fun s => ⟨s.heading.bare, bareAll s.items⟩ := by
  rw [scenarios, scenarios, bare, bareAll_eq_map, List.filterMap_map, List.map_filterMap]
  exact congrArg (List.filterMap · d.items) (funext Item.scenario?_bare)

theorem flaws_bare_eq_nil_iff : d.bare.flaws = [] ↔ d.flaws = [] := by
  have hsteps : ∀ s : Scenario, (Scenario.mk s.heading.bare (bareAll s.items)).steps = [] ↔
      s.steps = [] := by
    intro s
    simp [Scenario.steps, bareAll_eq_map, List.filterMap_eq_nil_iff]
  rw [flaws_eq_nil_iff, flaws_eq_nil_iff, dataTable?_bare, scenarios_bare]
  refine and_congr ?_ (and_congr ?_ (and_congr ?_ ?_))
  · simp [bare, bareAll_eq_map]
  · cases h : d.heading with
    | none => simp [bare, h]
    | some heading => simp [bare, h, Heading.bare]
  · cases d.dataTable? with
    | none => simp
    | some data => exact Iff.of_eq (by simp [Table.bare, Table.isInitialized, Table.rowCount])
  · simp [hsteps]

end

/-! ## Expansion -/

end Document

theorem Dictionary.step_expand (dictionary : Dictionary) (t : StepTree) :
    (dictionary.expand t).step = t.step := by
  have hwithin : ∀ depth id s, (dictionary.expandWithin depth id s).step = s := by
    intro depth id s
    cases depth with
    | zero => rfl
    | succ depth =>
      rw [expandWithin]
      split <;> rfl
  unfold expand expandStep
  split
  · rfl
  · split
    · exact hwithin _ _ _
    · rfl

theorem Item.bare_mapItemSteps {f : StepTree → StepTree} (hf : ∀ t, (f t).step = t.step)
    (i : Item) : (Document.mapItemSteps f i).bare = i.bare := by
  cases i with
  | step t => rw [Document.mapItemSteps, bare, bare, hf]
  | scenario h items =>
    rw [Document.mapItemSteps, bare, bare, bareAll_eq_map, bareAll_eq_map, List.map_map]
    congr 1
    refine List.map_congr_left fun i _ => ?_
    cases i with
    | step t => simp [mapStep?, bare, hf]
    | _ => rfl
  | _ => rfl

/-- **Expanding concept calls does not change the bare form.** -/
theorem Dictionary.bare_expandDocument (dictionary : Dictionary) (d : Document) :
    (dictionary.expandDocument d).bare = d.bare := by
  simp only [expandDocument, Document.mapSteps, Document.bare, bareAll_eq_map, List.map_map]
  congr 1
  exact List.map_congr_left fun i _ => Item.bare_mapItemSteps dictionary.step_expand i

end ScenarioBook
