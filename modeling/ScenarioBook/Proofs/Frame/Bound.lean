import ScenarioBook.Frame

/-!
# Bound frames

A frame is `Bound` if every declared name has an argument. Binding at least as many arguments as
there are names gives a bound frame that declares the same names (`bound_bind`, `names_bind`), and
in a bound frame every declared name is found (`Bound.get`). The frames that a data table gives are
bound: a row fills every column (`ofRow_bound`), and without a row every column stands for itself
(`bound_passthrough`).
-/

set_option autoImplicit false

namespace ScenarioBook.Frame

/-- Every declared name has an argument. -/
def Bound (f : Frame) : Prop := ∀ slot ∈ f.slots, ∃ arg, slot.2 = some arg

/-- The arguments that the names of a frame are bound to. -/
def args (f : Frame) : List Arg := f.slots.filterMap (·.2)

/-! ## Declaring -/

theorem length_declare_le (f : Frame) (name : Text) :
    (f.declare name).slots.length ≤ f.slots.length + 1 := by
  unfold declare
  split <;> simp [setSlot]

theorem length_ofNames_le (names : List Text) : (ofNames names).slots.length ≤ names.length := by
  have h : ∀ f : Frame, (names.foldl declare f).slots.length ≤ f.slots.length + names.length := by
    induction names with
    | nil => exact fun f => Nat.le_refl _
    | cons name names ih =>
      intro f
      have h1 := ih (f.declare name)
      have h2 := f.length_declare_le name
      simp only [List.foldl_cons, List.length_cons]
      omega
  simpa [ofNames, empty] using h empty

/-- A declared name was there before or is the new one. -/
theorem mem_names_declare {f : Frame} {name declared : Text}
    (h : declared ∈ (f.declare name).names) : declared ∈ f.names ∨ declared = name := by
  unfold declare at h
  split at h
  case isTrue =>
    have hsame : (f.setSlot name none).names = f.names := by
      rw [names, setSlot, List.map_map, names]
      refine List.map_congr_left fun slot _ => ?_
      rw [Function.comp_apply]
      split <;> rfl
    exact .inl (hsame ▸ h)
  case isFalse => simpa [names] using h

theorem mem_of_mem_names_ofNames {names : List Text} {declared : Text}
    (h : declared ∈ (ofNames names).names) : declared ∈ names := by
  have hfold : ∀ f : Frame, declared ∈ (names.foldl declare f).names →
      declared ∈ f.names ∨ declared ∈ names := by
    clear h
    induction names with
    | nil => exact fun f h => .inl h
    | cons name names ih =>
      intro f h
      rcases ih _ h with h | h
      · exact (mem_names_declare h).imp_right fun heq => List.mem_cons.2 (.inl heq)
      · exact .inr (List.mem_cons_of_mem _ h)
  exact (hfold empty h).resolve_left List.not_mem_nil

/-! ## Binding -/

theorem map_fst_fill (slots : List (Text × Option Arg)) (args : List Arg) :
    (fill slots args).map (·.1) = slots.map (·.1) := by
  fun_induction fill slots args with
  | case1 name old slots arg args ih => simp [ih]
  | case2 => rfl

@[simp] theorem names_bind (f : Frame) (args : List Arg) : (f.bind args).names = f.names :=
  map_fst_fill f.slots args

theorem mem_fill {slots : List (Text × Option Arg)} {args : List Arg}
    (hlen : slots.length ≤ args.length) {slot : Text × Option Arg} (h : slot ∈ fill slots args) :
    ∃ arg ∈ args, slot.2 = some arg := by
  fun_induction fill slots args with
  | case1 name old slots arg args ih =>
    rcases List.mem_cons.1 h with rfl | h
    · exact ⟨arg, List.mem_cons_self, rfl⟩
    · obtain ⟨a, ha, hs⟩ := ih (by simpa using hlen) h
      exact ⟨a, List.mem_cons_of_mem _ ha, hs⟩
  | case2 slots args hne =>
    cases slots with
    | nil => cases h
    | cons s slots =>
      cases args with
      | nil => simp at hlen
      | cons a args => exact absurd rfl (hne s.1 s.2 slots a args rfl)

/-- **Enough arguments bind every name.** -/
theorem bound_bind {f : Frame} {args : List Arg} (hlen : f.slots.length ≤ args.length) :
    (f.bind args).Bound := fun _ h =>
  let ⟨arg, _, hs⟩ := mem_fill hlen h
  ⟨arg, hs⟩

theorem args_bind_subset {f : Frame} {args : List Arg} (hlen : f.slots.length ≤ args.length) :
    ∀ arg ∈ (f.bind args).args, arg ∈ args := by
  intro arg h
  obtain ⟨slot, hslot, hs⟩ := List.mem_filterMap.1 h
  obtain ⟨a, ha, hs'⟩ := mem_fill hlen hslot
  rw [hs] at hs'
  cases hs'
  exact ha

/-! ## Looking up -/

/-- In a bound frame every declared name is found. -/
theorem Bound.get {f : Frame} (h : f.Bound) {name : Text} (hn : name ∈ f.names) :
    ∃ arg ∈ f.args, f.get name = .ok arg := by
  obtain ⟨slot, hslot, rfl⟩ := List.mem_map.1 hn
  have hsome : (f.slots.find? (·.1 == slot.1)).isSome :=
    List.find?_isSome.2 ⟨slot, hslot, beq_self_eq_true slot.1⟩
  obtain ⟨found, hfind⟩ := Option.isSome_iff_exists.1 hsome
  have hmem := List.mem_of_find?_eq_some hfind
  obtain ⟨arg, harg⟩ := h found hmem
  exact ⟨arg, List.mem_filterMap.2 ⟨found, hmem, harg⟩, by simp [Frame.get, slot?, hfind, harg]⟩

/-! ## Frames of a data table -/

theorem bound_empty : empty.Bound := fun _ h => by cases h

theorem length_ofTable_le (t : Table) : (ofTable t).slots.length ≤ t.columns.length := by
  simpa [ofTable, Table.headers] using length_ofNames_le t.headers

theorem bound_passthrough (t : Table) : (passthrough t).Bound :=
  bound_bind (by simpa [Table.headers] using length_ofTable_le t)

@[simp] theorem names_passthrough (t : Table) : (passthrough t).names = (ofTable t).names :=
  names_bind _ _

theorem names_ofTable_of_not_isInitialized {t : Table} (h : ¬ t.isInitialized) :
    (ofTable t).names = [] := by
  have : t.columns = [] := by simpa [Table.isInitialized] using h
  simp [ofTable, Table.headers, this, ofNames, empty, names]

/-- **A valid row gives a bound frame** with the names of the columns. -/
theorem ofRow_bound {t : Table} {index : Nat} (h : t.isInitialized → index < t.rowCount) :
    ∃ f, ofRow t index = .ok f ∧ f.Bound ∧ f.names = (ofTable t).names := by
  unfold ofRow
  split
  case isTrue hi =>
    have hrow : t.row index = .ok (t.cellsAt index) := if_pos (h hi)
    simp only [hrow]
    exact ⟨_, rfl, bound_bind (by simpa [Table.cellsAt] using length_ofTable_le t), names_bind _ _⟩
  case isFalse hi => exact ⟨_, rfl, bound_empty, (names_ofTable_of_not_isInitialized hi).symm⟩

end ScenarioBook.Frame
