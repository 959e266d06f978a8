import ScenarioBook.Proofs.StepText.Placeholders
import ScenarioBook.Token.Reading

/-!
# Checked steps

The references of a step are the names it uses, in its arguments and in the cells of its tables. A
step is `Checked` against declared names if it refers only to these and has one argument for each
placeholder of its value. Reading a step or a row without an error gives checked results
(`Token.checked_readStep`, `Token.declared_readRow`), and what is attached to a step later keeps it
checked (`Step.steady_checked`). Without the placeholders the same holds of every step token
(`Token.declared_readStep`, `Step.steady_declared`).
-/

set_option autoImplicit false

namespace ScenarioBook

/-! ## Diagnostics without errors -/

/-- None of the diagnostics is an error. -/
def Clean (found : List Diagnostic) : Prop := ∀ d ∈ found, d.isError = false

@[simp] theorem clean_nil : Clean [] := fun _ h => by cases h

@[simp] theorem clean_append {found more : List Diagnostic} :
    Clean (found ++ more) ↔ Clean found ∧ Clean more := List.forall_mem_append

@[simp] theorem clean_flatMap {α : Type} {f : α → List Diagnostic} {as : List α} :
    Clean (as.flatMap f) ↔ ∀ a ∈ as, Clean (f a) := by
  simp only [Clean, List.mem_flatMap]
  exact ⟨fun h a ha d hd => h d ⟨a, ha, hd⟩, fun h d ⟨a, ha, hd⟩ => h a ha d hd⟩

theorem isError_problem (t : Token) (p : Problem) :
    (t.problem p).isError = (p.severity == .error) := rfl

theorem not_clean_problem (t : Token) {p : Problem} (h : p.severity = .error) :
    ¬ Clean [t.problem p] := by
  intro hc
  have := hc _ List.mem_cons_self
  simp [isError_problem, h] at this

theorem settle_eq_ok {α : Type} {document : α} {found : List Diagnostic} {parsed : Parsed α}
    (h : Parsed.settle document found = .ok parsed) :
    Clean found ∧ parsed = ⟨document, found⟩ := by
  unfold Parsed.settle at h
  split at h
  case isTrue => cases h
  case isFalse hc =>
    cases h
    exact ⟨by simpa [Clean] using hc, rfl⟩

/-! ## References -/

/-- The name that a cell refers to. -/
def Cell.reference? : Cell → Option Text
  | .dynamic name => some name
  | _ => none

/-- The names that the cells of a table refer to. -/
def Table.references (t : Table) : List Text := t.cells.filterMap Cell.reference?

/-- The names that an argument refers to. -/
def Arg.references : Arg → List Text
  | .dynamic name => [name]
  | .table t => t.references
  | .specialTable _ t => t.references
  | _ => []

/-- The names that a step refers to. -/
def Step.references (s : Step) : List Text := s.args.flatMap Arg.references

/-- The step refers only to the given names. -/
def Step.Declared (names : List Text) (s : Step) : Prop := ∀ name ∈ s.references, name ∈ names

/-- The step has an argument for each placeholder and refers only to the given names. -/
structure Step.Checked (names : List Text) (s : Step) : Prop where
  filled : s.args.length = placeholderCount s.value
  declared : ∀ name ∈ s.references, name ∈ names

/-- A property of steps and names that holds with more names, and that tables and rows attached to
a step keep. -/
structure Step.Steady (P : List Text → Step → Prop) : Prop where
  mono {names more : List Text} {s : Step} (h : P names s) (hsub : ∀ n ∈ names, n ∈ more) : P more s
  addInlineTable {names : List Text} {s : Step} (h : P names s) {t : Table}
    (ht : t.references = []) : P names (s.addInlineTable t)
  addInlineRow {names : List Text} {s : Step} (h : P names s) {row : List Cell}
    (hr : ∀ name, .dynamic name ∈ row → name ∈ names) : P names (s.addInlineRow row)

/-! ## Tables -/

namespace Table

theorem mem_references {t : Table} {name : Text} :
    name ∈ t.references ↔ .dynamic name ∈ t.cells := by
  rw [references, List.mem_filterMap]
  constructor
  · rintro ⟨cell, hc, hn⟩
    cases cell <;> cases hn
    exact hc
  · exact fun h => ⟨_, h, rfl⟩

theorem references_addHeader (t : Table) (header : Text) :
    (t.addHeader header).references = t.references := by
  unfold addHeader
  split
  · rfl
  · have h : (List.replicate t.rowCount Cell.empty).filterMap Cell.reference? = [] :=
      List.filterMap_replicate_of_none rfl
    simp [references, cells, h]

theorem references_addHeaders (t : Table) (headers : List Text) :
    (t.addHeaders headers).references = t.references := by
  induction headers generalizing t with
  | nil => rfl
  | cons header headers ih => exact (ih _).trans (references_addHeader t header)

@[simp] theorem references_empty_addHeaders (lineNo : Nat) (headers : List Text) :
    ((empty lineNo).addHeaders headers).references = [] := references_addHeaders _ _

theorem mem_pushCells {columns : List Column} {row : List Cell} {cell : Cell}
    (h : cell ∈ (pushCells columns row).flatMap (·.cells)) :
    cell ∈ columns.flatMap (·.cells) ∨ cell ∈ row ∨ cell = .empty := by
  fun_induction pushCells columns row with
  | case1 => cases h
  | case2 col cols row ih =>
    simp only [List.flatMap_cons, List.mem_append, List.mem_singleton] at h ⊢
    rcases h with (h | rfl) | h
    · exact .inl (.inl h)
    · cases row with
      | nil => exact .inr (.inr rfl)
      | cons c row => exact .inr (.inl List.mem_cons_self)
    · rcases ih h with h | h | h
      · exact .inl (.inr h)
      · exact .inr (.inl (List.mem_of_mem_tail h))
      · exact .inr (.inr h)

theorem mem_references_addRow {t : Table} {row : List Cell} {name : Text}
    (h : name ∈ (t.addRow row).references) : name ∈ t.references ∨ .dynamic name ∈ row := by
  rcases mem_pushCells (mem_references.1 h) with h | h | h
  · exact .inl (mem_references.2 h)
  · exact .inr h
  · cases h

theorem references_addRowValues {t : Table} (h : t.references = []) (values : List Text) :
    (t.addRowValues values).references = [] := by
  refine List.eq_nil_iff_forall_not_mem.2 fun name hn => ?_
  rcases mem_references_addRow hn with hn | hn
  · rw [h] at hn
    cases hn
  · simp at hn

end Table

/-- A table read from a file holds no references. -/
theorem Csv.references_toTable (t : Text) : (toTable t).references = [] := by
  unfold toTable
  split
  · rfl
  · next headers rows hrecords =>
    clear hrecords
    have hstart := Table.references_empty_addHeaders 0 headers
    generalize (Table.empty 0).addHeaders headers = start at hstart
    induction rows generalizing start with
    | nil => exact hstart
    | cons row rows ih => exact ih _ (Table.references_addRowValues hstart row)

/-! ## Reading -/

theorem Reference.references_of_resolve {files : FileSource} {text : Text} {arg : Arg}
    (h : resolve files text = .ok arg) : arg.references = [] := by
  simp only [resolve] at h
  split at h
  case isTrue =>
    obtain ⟨c, -, rfl⟩ := map_eq_ok h
    rfl
  case isFalse =>
    split at h
    case isTrue =>
      obtain ⟨c, -, rfl⟩ := map_eq_ok h
      exact Csv.references_toTable c
    case isFalse => cases h

theorem Frame.declares_iff {f : Frame} {name : Text} : f.declares name = true ↔ name ∈ f.names :=
  List.contains_iff_mem

namespace Token
variable {t : Token} {frame : Frame} {files : FileSource}

theorem declared_readArg {raw : RawArg} (h : Clean (t.readArg frame files raw).2) :
    ∀ name ∈ (t.readArg frame files raw).1.references, name ∈ frame.names := by
  unfold readArg at h ⊢
  split
  case h_1 => intro name hn; cases hn
  case h_2 hk =>
    intro name hn
    simp only [hk] at h
    rw [List.mem_singleton.1 hn]
    by_contra hne
    rw [if_neg (by rwa [Frame.declares_iff])] at h
    exact not_clean_problem t rfl h
  case h_3 hk =>
    simp only [hk] at h
    split
    case h_1 arg hr =>
      intro name hn
      rw [Reference.references_of_resolve hr] at hn
      cases hn
    case h_2 fault hr =>
      rw [hr] at h
      exact absurd h (not_clean_problem t rfl)

/-- **A step read without an error refers to declared names.** -/
theorem declared_readStep {value : Text} {raws : List RawArg} {block : Option Text}
    (h : Clean (t.readStep frame files value raws block).2) :
    (t.readStep frame files value raws block).1.Declared frame.names := by
  have hargs : ∀ found : List Diagnostic,
      Clean ((raws.map (t.readArg frame files)).flatMap (·.2) ++ found) →
      ∀ arg ∈ (raws.map (t.readArg frame files)).map (·.1), ∀ name ∈ arg.references,
        name ∈ frame.names := by
    intro found hc arg harg name hn
    simp only [List.mem_map] at harg
    obtain ⟨_, ⟨raw, hraw, rfl⟩, rfl⟩ := harg
    have hraw' := clean_flatMap.1 (clean_append.1 hc).1 _ (List.mem_map_of_mem hraw)
    exact declared_readArg hraw' name hn
  unfold readStep at h ⊢
  cases block with
  | none =>
    intro name hn
    obtain ⟨arg, harg, hn⟩ := List.mem_flatMap.1 hn
    exact hargs [] (by simpa using h) arg harg name hn
  | some contents =>
    simp only at h ⊢
    split
    case isTrue hr =>
      rw [List.isEmpty_iff.1 hr]
      simp [Step.Declared, Step.references, Step.pushTrailing, Arg.references]
    case isFalse hr =>
      rw [if_neg hr] at h
      exact absurd (clean_append.1 h).2 (not_clean_problem t rfl)

/-- **A step read without an error is checked**, if it has an argument for each placeholder. -/
theorem checked_readStep {value : Text} {raws : List RawArg} {block : Option Text}
    (hp : placeholderCount value = raws.length)
    (h : Clean (t.readStep frame files value raws block).2) :
    (t.readStep frame files value raws block).1.Checked frame.names := by
  refine ⟨?_, declared_readStep h⟩
  unfold readStep at h ⊢
  cases block with
  | none => simp [hp]
  | some contents =>
    simp only at h ⊢
    split
    case isTrue hr =>
      rw [List.isEmpty_iff.1 hr] at hp ⊢
      rw [placeholderCount_pushTrailing]
      simp [Step.pushTrailing, hp]
    case isFalse hr =>
      rw [if_neg hr] at h
      exact absurd (clean_append.1 h).2 (not_clean_problem t rfl)

theorem declared_readCell {cell : Text} {name : Text} (h : Clean (t.readCell frame files cell).2)
    (hn : (t.readCell frame files cell).1 = .dynamic name) : name ∈ frame.names := by
  unfold readCell at h hn
  split at hn
  case h_1 => cases hn
  case h_2 inner hb =>
    simp only [hb] at h
    unfold readFileCell? at h hn
    by_cases hf : inner.startsWith "file:".toList
    · rw [if_pos hf] at hn
      cases hr : Reference.resolve files inner <;> rw [hr] at hn <;> cases hn
    · rw [if_neg hf] at h hn
      cases hn
      by_contra hne
      simp only [Frame.declares_iff, if_neg hne] at h
      exact not_clean_problem t rfl h

/-- A row read without an error refers only to declared names. -/
theorem declared_readRow {cells : List Text} {name : Text}
    (h : Clean (t.readRow frame files cells).2)
    (hn : .dynamic name ∈ (t.readRow frame files cells).1) : name ∈ frame.names := by
  simp only [readRow, List.mem_map] at hn
  obtain ⟨_, ⟨cell, hcell, rfl⟩, hn⟩ := hn
  exact declared_readCell (clean_flatMap.1 h _ (List.mem_map_of_mem hcell)) hn

end Token

/-! ## What is attached later -/

namespace Step
variable {names : List Text} {s : Step}

theorem Declared.pushTrailing (h : s.Declared names) (arg : Arg)
    (ha : ∀ name ∈ arg.references, name ∈ names) : (s.pushTrailing arg).Declared names := by
  intro name hn
  simp only [Step.references, Step.pushTrailing, List.flatMap_append, List.mem_append,
    List.flatMap_singleton] at hn
  exact hn.elim (h name) (ha name)

theorem Declared.addInlineTable (h : s.Declared names) {t : Table} (ht : t.references = []) :
    (s.addInlineTable t).Declared names :=
  h.pushTrailing (.table t) (by simp [Arg.references, ht])

theorem references_mapTable_addRow {arg : Arg} {row : List Cell} {name : Text}
    (h : name ∈ (arg.mapTable (·.addRow row)).references) :
    name ∈ arg.references ∨ .dynamic name ∈ row := by
  cases arg with
  | table t | specialTable _ t => exact Table.mem_references_addRow h
  | _ => exact .inl h

theorem Declared.addInlineRow (h : s.Declared names) {row : List Cell}
    (hr : ∀ name, .dynamic name ∈ row → name ∈ names) : (s.addInlineRow row).Declared names := by
  unfold Step.addInlineRow
  split
  case isFalse => exact h
  case isTrue =>
    rcases List.eq_nil_or_concat s.args with hnil | ⟨init, last, hargs⟩
    · simp [Declared, Step.references, hnil]
    · rw [List.concat_eq_append] at hargs
      intro name hn
      have hdecl : ∀ arg ∈ init ++ [last], ∀ name ∈ arg.references, name ∈ names := by
        intro arg harg name hn
        exact h name (List.mem_flatMap.2 ⟨arg, by rwa [hargs], hn⟩)
      simp only [Step.references, hargs, List.dropLast_concat, List.getLast?_concat,
        Option.map_some, Option.toList_some, List.flatMap_append, List.flatMap_singleton,
        List.mem_append, List.mem_flatMap] at hn
      rcases hn with ⟨arg, harg, hn⟩ | hn
      · exact hdecl arg (List.mem_append_left _ harg) name hn
      · rcases references_mapTable_addRow hn with hn | hn
        · exact hdecl last (by simp) name hn
        · exact hr name hn

/-- References stay declared. -/
theorem steady_declared : Steady Declared where
  mono h hsub name hn := hsub name (h name hn)
  addInlineTable h _ ht := h.addInlineTable ht
  addInlineRow h _ hr := h.addInlineRow hr

theorem Checked.mono {more : List Text} (h : s.Checked names) (hsub : ∀ n ∈ names, n ∈ more) :
    s.Checked more := ⟨h.filled, steady_declared.mono h.declared hsub⟩

theorem Checked.pushTrailing (h : s.Checked names) (arg : Arg)
    (ha : ∀ name ∈ arg.references, name ∈ names) : (s.pushTrailing arg).Checked names := by
  refine ⟨?_, Declared.pushTrailing h.declared arg ha⟩
  rw [placeholderCount_pushTrailing, ← h.filled]
  simp [Step.pushTrailing]

theorem Checked.addInlineTable (h : s.Checked names) {t : Table} (ht : t.references = []) :
    (s.addInlineTable t).Checked names := by
  have := h.pushTrailing (.table t) (by simp [Arg.references, ht])
  exact ⟨this.filled, this.declared⟩

theorem Checked.addInlineRow (h : s.Checked names) {row : List Cell}
    (hr : ∀ name, .dynamic name ∈ row → name ∈ names) : (s.addInlineRow row).Checked names := by
  refine ⟨?_, Declared.addInlineRow h.declared hr⟩
  unfold Step.addInlineRow
  split
  case isFalse => exact h.filled
  case isTrue =>
    rcases List.eq_nil_or_concat s.args with hnil | ⟨init, last, hargs⟩
    · simpa [hnil] using h.filled
    · rw [List.concat_eq_append] at hargs
      simpa [hargs] using h.filled

/-- Checked steps stay checked. -/
theorem steady_checked : Steady Checked where
  mono h hsub := h.mono hsub
  addInlineTable h _ ht := h.addInlineTable ht
  addInlineRow h _ hr := h.addInlineRow hr

end Step

end ScenarioBook
