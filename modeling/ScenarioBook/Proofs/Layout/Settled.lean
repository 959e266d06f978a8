import Mathlib.Data.List.SplitBy
import ScenarioBook.Proofs.Layout.Lexed

/-!
# Lines that find a place or lose it

A document is written with its heading first, so lines that stood above the heading come to stand in
a section. A `table:` line or the lines of a table, kept as comments because they had no place
there, are then the data table if that place is free (`Layout.dataIn?`); and a data table behind
them, or behind a marker that came before the heading, is kept as comments
(`DataTable.KeptBehind`). `Layout.reread` goes through the items from front to back and exchanges
data tables and comments where their lines are read so.

The exchange leaves all lines as they are (`Layout.sameLines_reread`), and items that fit stay as
they are (`Layout.reread_of_fit`).
-/

set_option autoImplicit false

namespace ScenarioBook

/-! ## Lines as a data table -/

/-- A cell of the data table with this text. -/
def Cell.ofData (text : Text) : Cell :=
  match (Token.bracketed? text).filter (·.startsWith "file:".toList) with
  | some path => .special path
  | none => .literal text

/-- The table with these lines below its header. -/
def Table.ofLines (header : Text) (lines : List Text) : Table :=
  let rows := (lines.map fun line => Row.splitCells line.trim).filter (!Row.isSeparator ·)
  rows.foldl (fun t cells => t.addRow (cells.map Cell.ofData))
    ((Table.empty 0).addHeaders (Row.splitCells header.trim))

/-- A table that may stand as the data table: one with columns has rows. -/
def Table.HasRows (t : Table) : Prop := t.isInitialized = true → t.rowCount ≠ 0

namespace DataTable

/-- The data table that the lines are. -/
def ofLines? (files : FileSource) : List Text → Option DataTable
  | [] => none
  | line :: lines =>
    match Shape.ofTrimmed line.trim with
    | .dataTable path => (Reference.dataTable files path).toOption.map fun t => ⟨t, some path⟩
    | .tableLine => some ⟨.ofLines line lines, none⟩
    | _ => none

/-- The lines of the data table are kept as comments behind these items. -/
def KeptBehind (before : List Item) (d : DataTable) : Prop :=
  match d.reference with
  | some _ => (Ignored.ofDocument before).data = true
  | none => (Ignored.ofDocument before).table = true ∨ (trailAfter before).mode = .table

end DataTable

/-! ## The exchange -/

namespace Item

def isComment : Item → Bool
  | .comment _ => true
  | _ => false

/-- A line of a table that is kept as a comment. -/
def isTableLine : Item → Bool
  | .comment c => c.shape = .tableLine
  | _ => false

end Item

section
variable (files : FileSource)

instance : DecidablePred Table.HasRows := fun t =>
  inferInstanceAs (Decidable (t.isInitialized = true → t.rowCount ≠ 0))

instance (before : List Item) : DecidablePred (DataTable.KeptBehind before)
  | ⟨_, some _⟩ => inferInstanceAs (Decidable (_ = _))
  | ⟨_, none⟩ => inferInstanceAs (Decidable (_ ∨ _))

end

namespace Layout

section
variable (l : Layout) (files : FileSource)

/-- The data table that comments are behind these items: it has a place there, and it is written on
the same lines. -/
def dataIn? (before comments : List Item) : Option DataTable :=
  (DataTable.ofLines? files (l.allLines comments)).filter fun d =>
    comments.all Item.isComment ∧ d.table.HasRows ∧ ¬ d.KeptBehind before ∧
      l.itemLines (.dataTable d) = l.allLines comments

/-- The items that the lines of an item are read as behind these items. -/
def rereadItem (before : List Item) : Item → List Item
  | .dataTable d =>
    if d.KeptBehind before ∧ l.itemLines (.dataTable d) ≠ [] then
      (l.itemLines (.dataTable d)).map fun line => .comment ⟨line, 0⟩
    else [.dataTable d]
  | i => [i]

/-- The items with more items behind them, the lines of which are together those of one table, or
are read one by one. -/
def rereadGroup (before group : List Item) : List Item :=
  match l.dataIn? files before group with
  | some d => before ++ [.dataTable d]
  | none => group.foldl (fun before i => before ++ l.rereadItem before i) before

/-- The items that the lines of these items are read as below the heading. -/
def reread (items : List Item) : List Item :=
  (items.splitBy fun i j => i.isTableLine && j.isTableLine).foldl (l.rereadGroup files) []

end

/-! ## The lines stay -/

/-- Other items on the same lines: the scenarios are the same, and a data table that was not there
may stand there. -/
structure SameLines (l : Layout) (items items' : List Item) : Prop where
  lines : l.allLines items' = l.allLines items
  scenarios : items'.filterMap Item.scenario? = items.filterMap Item.scenario?
  data : ∀ d ∈ items'.filterMap Item.dataTable?,
    d ∈ items.filterMap Item.dataTable? ∨ d.table.HasRows
  nonempty : items ≠ [] → items' ≠ []

section
variable {l : Layout} {files : FileSource} {before items items' more more' : List Item} {i : Item}
  {d : DataTable}

theorem allLines_append : l.allLines (items ++ more) = l.allLines items ++ l.allLines more := by
  induction items with
  | nil => rfl
  | cons i is ih => rw [List.cons_append, allLines, allLines, ih, List.append_assoc]

theorem allLines_singleton : l.allLines [i] = l.itemLines i := by
  rw [allLines, allLines, List.append_nil]

theorem SameLines.refl (l : Layout) (items : List Item) : l.SameLines items items :=
  ⟨rfl, rfl, fun _ => .inl, id⟩

theorem SameLines.append (h : l.SameLines items items') (hm : l.SameLines more more') :
    l.SameLines (items ++ more) (items' ++ more') where
  lines := by rw [allLines_append, allLines_append, h.lines, hm.lines]
  scenarios := by rw [List.filterMap_append, List.filterMap_append, h.scenarios, hm.scenarios]
  data := by
    rw [List.filterMap_append, List.filterMap_append]
    refine List.forall_mem_append.2 ⟨fun d hd => ?_, fun d hd => ?_⟩
    · exact (h.data d hd).imp_left (List.mem_append_left _)
    · exact (hm.data d hd).imp_left (List.mem_append_right _)
  nonempty hne := by
    rw [Ne, List.append_eq_nil_iff, not_and_or] at hne ⊢
    exact hne.imp h.nonempty hm.nonempty

/-- The lines of a data table are no blank lines. -/
theorem ne_blankLine_of_mem {line : Text} (h : line ∈ l.itemLines (.dataTable d)) :
    line ≠ blankLine := by
  rintro rfl
  rw [itemLines] at h
  split at h
  case h_1 path hpath => simp [blankLine] at h
  case h_2 hpath =>
    rw [tableLines] at h
    split at h
    case isTrue =>
      obtain ⟨texts, -, hrow⟩ := List.mem_map.1 h
      have hbar : '|' ∈ l.rowLine (tableWidths d.table) texts := by simp [rowLine]
      rw [hrow] at hbar
      exact absurd hbar (by decide)
    case isFalse => cases h

theorem allLines_comments {lines : List Text} (h : ∀ line ∈ lines, line ≠ blankLine) :
    l.allLines (lines.map fun line => .comment ⟨line, 0⟩) = lines := by
  induction lines with
  | nil => rfl
  | cons line lines ih =>
    obtain ⟨hline, hlines⟩ := List.forall_mem_cons.1 h
    rw [List.map_cons, allLines, itemLines, Comment.isBlank, beq_eq_false_iff_ne.2 hline,
      ih hlines]
    rfl

theorem sameLines_rereadItem (before : List Item) (i : Item) :
    l.SameLines [i] (l.rereadItem before i) := by
  unfold rereadItem
  split
  case h_1 d =>
    split
    case isTrue hkept =>
      refine ⟨?_, ?_, ?_, ?_⟩
      · rw [allLines_singleton, allLines_comments fun _ => ne_blankLine_of_mem]
      · simp [List.filterMap_map, Function.comp_def, Item.scenario?]
      · simp [List.filterMap_map, Function.comp_def, Item.dataTable?]
      · simpa using hkept.2
    case isFalse => exact .refl l _
  case h_2 => exact .refl l _

theorem sameLines_of_dataIn? (h : l.dataIn? files before items = some d) :
    l.SameLines items [.dataTable d] := by
  obtain ⟨-, hd⟩ := Option.filter_eq_some_iff.1 h
  obtain ⟨hcomments, hrows, -, hlines⟩ := of_decide_eq_true hd
  have hcomment : ∀ i ∈ items, i.isComment = true := List.all_eq_true.1 hcomments
  refine ⟨by rw [allLines_singleton, hlines], ?_, ?_, fun _ => List.cons_ne_nil _ _⟩
  · refine (List.filterMap_eq_nil_iff.2 fun i hi => ?_).symm
    have hi := hcomment i hi
    cases i <;> first | rfl | cases hi
  · intro data hdata
    obtain rfl : data = d := by simpa [Item.dataTable?] using hdata
    exact .inr hrows

/-- Going on with one part of the items after the other keeps the lines, if each part does. -/
theorem exists_foldl_sameLines {α : Type} (view : α → List Item) {step : List Item → α → List Item}
    (hstep : ∀ before a, ∃ added, step before a = before ++ added ∧ l.SameLines (view a) added)
    (parts : List α) (before : List Item) :
    ∃ added, parts.foldl step before = before ++ added ∧
      l.SameLines (parts.flatMap view) added := by
  induction parts generalizing before with
  | nil => exact ⟨[], (List.append_nil _).symm, .refl l _⟩
  | cons a parts ih =>
    obtain ⟨first, hfirst, hsame⟩ := hstep before a
    obtain ⟨rest, hrest, hsames⟩ := ih (before ++ first)
    refine ⟨first ++ rest, ?_, hsame.append hsames⟩
    rw [List.foldl_cons, hfirst, hrest, List.append_assoc]

theorem exists_rereadGroup (files : FileSource) (before group : List Item) :
    ∃ added, l.rereadGroup files before group = before ++ added ∧ l.SameLines group added := by
  unfold rereadGroup
  split
  case h_1 d hd => exact ⟨[.dataTable d], rfl, sameLines_of_dataIn? hd⟩
  case h_2 =>
    obtain ⟨added, hadded, hsame⟩ := exists_foldl_sameLines (fun i => [i])
      (fun before i => ⟨_, rfl, sameLines_rereadItem before i⟩) group before
    exact ⟨added, hadded, by rwa [List.flatMap_singleton'] at hsame⟩

/-- **The exchange leaves all lines as they are.** -/
theorem sameLines_reread (files : FileSource) (items : List Item) :
    l.SameLines items (l.reread files items) := by
  obtain ⟨added, hadded, hsame⟩ := exists_foldl_sameLines id (exists_rereadGroup files)
    (items.splitBy fun i j => i.isTableLine && j.isTableLine) []
  rw [List.flatMap_id, List.flatten_splitBy] at hsame
  rwa [reread, hadded, List.nil_append]

/-! ## Items that fit -/

theorem not_keptBehind_of_fits (h : (Item.dataTable d).Fits files before) :
    ¬ d.KeptBehind before := by
  obtain ⟨-, hnone, -, hd⟩ := h
  have hdata : before.any (·.dataTable?.isSome) = false := by
    simpa [List.any_eq_false] using hnone
  unfold DataTable.KeptBehind
  cases href : d.reference with
  | some path => simp [Ignored.ofDocument, hdata]
  | none =>
    rw [href] at hd
    obtain ⟨hcontext, htable, -⟩ := hd
    simp [Ignored.ofDocument, hcontext, hdata, htable]

theorem rereadItem_of_fits (h : i.Fits files before) : l.rereadItem before i = [i] := by
  unfold rereadItem
  split
  case h_1 d => rw [if_neg fun hkept => not_keptBehind_of_fits h hkept.1]
  case h_2 => rfl

/-- A line that fits as a comment has no place as a data table. -/
theorem dataIn?_of_fits (h : FitAll (Item.Fits files) before items) :
    l.dataIn? files before items = none := by
  rw [Option.eq_none_iff_forall_ne_some]
  intro d hd
  obtain ⟨hlines, hd⟩ := Option.filter_eq_some_iff.1 hd
  obtain ⟨hcomments, -, hplace, -⟩ := of_decide_eq_true hd
  cases items with
  | nil => cases hlines
  | cons i is =>
    cases i with
    | comment c =>
      obtain ⟨-, hfits⟩ := h.1
      rcases hfits with hblank | ⟨-, -, hstays⟩
      · rw [allLines, itemLines, if_pos hblank] at hlines
        cases hlines
      · have hblank : ¬ c.isBlank := fun hblank => by
          rw [Comment.shape_of_isBlank hblank] at hstays
          exact hstays
        have hshape : Shape.ofTrimmed c.text.trim = c.shape := rfl
        rw [allLines, itemLines, if_neg hblank, List.singleton_append, DataTable.ofLines?,
          hshape] at hlines
        -- a line that stays a comment is ignored where it stands, as the data table would be
        cases hs : c.shape with rw [hs] at hlines hstays
        | dataTable path =>
          obtain ⟨table, -, rfl⟩ := Option.map_eq_some_iff.1 hlines
          exact hplace hstays.2.2.1
        | tableLine =>
          obtain rfl := Option.some.inj hlines
          obtain ⟨-, -, hheader⟩ := hstays
          by_cases hmode : (trailAfter before).mode = .table
          · exact hplace (.inr hmode)
          · exact hplace (.inl (hheader hmode).1)
        | _ => cases hlines
    | _ => simp [Item.isComment] at hcomments

/-- Going on with one part of the items after the other puts them together, if they fit. -/
theorem foldl_of_fit {α : Type} (view : α → List Item) {step : List Item → α → List Item}
    (hstep : ∀ before a, FitAll (Item.Fits files) before (view a) →
      step before a = before ++ view a) {parts : List α}
    (h : FitAll (Item.Fits files) before (parts.flatMap view)) :
    parts.foldl step before = before ++ parts.flatMap view := by
  induction parts generalizing before with
  | nil => exact (List.append_nil _).symm
  | cons a parts ih =>
    rw [List.flatMap_cons] at h ⊢
    obtain ⟨ha, hparts⟩ := fitAll_append.1 h
    rw [List.foldl_cons, hstep before a ha, ih hparts, List.append_assoc]

/-- **Items that fit stay as they are.** -/
theorem reread_of_fit (h : FitAll (Item.Fits files) [] items) : l.reread files items = items := by
  have hitem : ∀ before i, FitAll (Item.Fits files) before [i] →
      before ++ l.rereadItem before i = before ++ [i] := fun before i hi => by
    rw [rereadItem_of_fits hi.1]
  have hgroup : ∀ before group, FitAll (Item.Fits files) before (id group) →
      l.rereadGroup files before group = before ++ id group := fun before group hg => by
    have hfold := foldl_of_fit (fun i => [i]) hitem
      (by rwa [List.flatMap_singleton'])
    rw [List.flatMap_singleton'] at hfold
    rw [rereadGroup, show l.dataIn? files before group = none from dataIn?_of_fits hg]
    exact hfold
  have hsplit : (items.splitBy fun i j => i.isTableLine && j.isTableLine).flatMap id = items := by
    rw [List.flatMap_id, List.flatten_splitBy]
  have hall := foldl_of_fit id hgroup (hsplit.symm ▸ h)
  rwa [hsplit, List.nil_append] at hall

end

end Layout

end ScenarioBook
