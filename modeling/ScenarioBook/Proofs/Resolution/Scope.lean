import ScenarioBook.Proofs.Frame.Bound
import ScenarioBook.Proofs.Step.Checked
import ScenarioBook.Resolution

/-!
# Complete scopes

A scope is `Complete` if every name of each of its frames is bound and a reference found in a frame
names a parameter of the frame below. In a complete scope every declared name stands for an argument
(`Complete.resolve`), so arguments, cells and frames that refer only to declared names are resolved
(`Complete.resolveArg`, `Complete.resolveArgs`), and the resolved frame of a call makes the scope of
its body complete (`Complete.enter`).
-/

set_option autoImplicit false

namespace ScenarioBook

/-! ## Lists of results -/

section
variable {ε α β γ : Type} {f : α → Except ε β} {as : List α}

/-- Results with a property and with the same keys, from such results for each element. -/
theorem exists_mapM_keyed (key : α → γ) (key' : β → γ) {P : β → Prop}
    (h : ∀ a ∈ as, ∃ b, f a = .ok b ∧ key' b = key a ∧ P b) :
    ∃ bs, as.mapM f = .ok bs ∧ bs.map key' = as.map key ∧ ∀ b ∈ bs, P b := by
  induction as with
  | nil => exact ⟨[], rfl, rfl, fun _ hb => by cases hb⟩
  | cons a as ih =>
    obtain ⟨⟨b, hb, hkey, hP⟩, has⟩ := List.forall_mem_cons.1 h
    obtain ⟨bs, hbs, hkeys, hPs⟩ := ih has
    refine ⟨b :: bs, by rw [List.mapM_cons, hb, hbs]; rfl, ?_, List.forall_mem_cons.2 ⟨hP, hPs⟩⟩
    rw [List.map_cons, List.map_cons, hkey, hkeys]

theorem bind_eq_ok {x : Except ε α} {g : α → Except ε β} {b : β} (h : x >>= g = .ok b) :
    ∃ a, x = .ok a ∧ g a = .ok b := by
  cases x with
  | error e => cases h
  | ok a => exact ⟨a, rfl, h⟩

theorem mapM_cons_eq_ok {a : α} {bs : List β} (h : (a :: as).mapM f = .ok bs) :
    ∃ b others, f a = .ok b ∧ as.mapM f = .ok others ∧ bs = b :: others := by
  rw [List.mapM_cons] at h
  obtain ⟨b, hb, h⟩ := bind_eq_ok h
  obtain ⟨others, hothers, h⟩ := bind_eq_ok h
  exact ⟨b, others, hb, hothers, (Except.ok.inj h).symm⟩

/-- Every result comes from an element. -/
theorem exists_of_mem_mapM {bs : List β} (h : as.mapM f = .ok bs) {b : β} (hb : b ∈ bs) :
    ∃ a ∈ as, f a = .ok b := by
  induction as generalizing bs with
  | nil =>
    cases h
    cases hb
  | cons a as ih =>
    obtain ⟨first, others, hfirst, hothers, rfl⟩ := mapM_cons_eq_ok h
    rcases List.mem_cons.1 hb with rfl | hb
    · exact ⟨a, List.mem_cons_self, hfirst⟩
    · obtain ⟨a', ha', hf⟩ := ih hothers hb
      exact ⟨a', List.mem_cons_of_mem _ ha', hf⟩

theorem exists_mapM (h : ∀ a ∈ as, ∃ b, f a = .ok b) :
    ∃ bs, as.mapM f = .ok bs ∧ bs.length = as.length := by
  obtain ⟨bs, hbs, hkeys, -⟩ := exists_mapM_keyed (fun _ => ()) (fun _ => ())
    (P := fun _ => True) fun a ha => (h a ha).imp fun b hb => ⟨hb, rfl, trivial⟩
  exact ⟨bs, hbs, by simpa using congrArg List.length hkeys⟩

end

theorem Table.exists_mapCellsM {ε : Type} {f : Cell → Except ε Cell} {t : Table}
    (h : ∀ cell ∈ t.cells, ∃ cell', f cell = .ok cell') : ∃ t', t.mapCellsM f = .ok t' := by
  have hcol : ∀ col ∈ t.columns, ∃ col' : Column,
      (do let cells ← col.cells.mapM f; return { col with cells := cells } : Except ε Column) =
        .ok col' := by
    intro col hcol
    obtain ⟨cells, hcells, -⟩ := exists_mapM fun cell hcell =>
      h cell (List.mem_flatMap.2 ⟨col, hcol, hcell⟩)
    exact ⟨⟨col.header, cells⟩, by rw [hcells]; rfl⟩
  obtain ⟨columns, hcolumns, -⟩ := exists_mapM hcol
  exact ⟨⟨t.lineNo, columns⟩, by rw [mapCellsM, hcolumns]; rfl⟩

namespace Scope

/-- Every name is bound, and references name parameters of the frame below. -/
def Complete : Scope → Prop
  | root f => f.Bound
  | child f p => f.Bound ∧ (∀ name, .dynamic name ∈ f.args → name ∈ p.frame.names) ∧ p.Complete

section
variable {scope : Scope}

/-- **In a complete scope every declared name stands for an argument.** -/
theorem Complete.resolve (h : scope.Complete) {name : Text} (hn : name ∈ scope.frame.names) :
    ∃ arg, scope.resolve name = .ok arg := by
  induction scope generalizing name with
  | root f =>
    obtain ⟨arg, -, harg⟩ := Frame.Bound.get h hn
    exact ⟨arg, harg⟩
  | child f p ih =>
    obtain ⟨hbound, hbelow, hp⟩ := h
    obtain ⟨arg, hmem, harg⟩ := hbound.get hn
    simp only [Scope.resolve, harg]
    cases arg with
    | dynamic inner => exact ih hp (hbelow inner hmem)
    | _ => exact ⟨_, rfl⟩

theorem Complete.resolveCell (h : scope.Complete) {cell : Cell}
    (hc : ∀ name, cell = .dynamic name → name ∈ scope.frame.names) :
    ∃ cell', scope.resolveCell cell = .ok cell' := by
  cases cell with
  | literal | special => exact ⟨_, rfl⟩
  | dynamic name =>
    obtain ⟨arg, harg⟩ := h.resolve (hc name rfl)
    simp only [Scope.resolveCell, harg]
    cases arg <;> exact ⟨_, rfl⟩

theorem Complete.mapCellsM (h : scope.Complete) {t : Table}
    (ht : ∀ name ∈ t.references, name ∈ scope.frame.names) :
    ∃ t', t.mapCellsM scope.resolveCell = .ok t' := by
  refine Table.exists_mapCellsM fun cell hcell => h.resolveCell ?_
  rintro name rfl
  exact ht name (Table.mem_references.2 hcell)

/-- An argument is resolved; one with a table stays one. -/
theorem Complete.resolveArg (h : scope.Complete) {arg : Arg}
    (ha : ∀ name ∈ arg.references, name ∈ scope.frame.names) :
    ∃ arg', scope.resolveArg arg = .ok arg' ∧
      (arg.table?.isSome → ∀ name, arg' ≠ .dynamic name) := by
  cases arg with
  | literal | special | block => exact ⟨_, rfl, fun ht => by cases ht⟩
  | dynamic name =>
    obtain ⟨arg', harg'⟩ := h.resolve (ha name List.mem_cons_self)
    exact ⟨arg', harg', fun ht => by cases ht⟩
  | table t | specialTable n t =>
    obtain ⟨t', ht'⟩ := h.mapCellsM ha
    simp only [Scope.resolveArg, Arg.mapTableM, ht', Except.map]
    exact ⟨_, rfl, fun _ _ => by simp⟩

theorem Complete.resolveArgs (h : scope.Complete) {args : List Arg}
    (ha : ∀ name ∈ args.flatMap Arg.references, name ∈ scope.frame.names) :
    ∃ args', args.mapM scope.resolveArg = .ok args' ∧ args'.length = args.length := by
  refine exists_mapM fun arg harg => ?_
  obtain ⟨arg', harg', -⟩ := h.resolveArg fun name hn =>
    ha name (List.mem_flatMap.2 ⟨arg, harg, hn⟩)
  exact ⟨arg', harg'⟩

/-- What resolving a slot leaves as it was: the name, and whether it holds a reference. -/
theorem Complete.resolveSlot (h : scope.Complete) {slot : Text × Option Arg} {arg : Arg}
    (hs : slot.2 = some arg) (ha : ∀ name ∈ arg.references, name ∈ scope.frame.names) :
    ∃ arg', scope.resolveSlot slot = .ok (slot.1, some arg') ∧
      ∀ name, arg' = .dynamic name → arg = .dynamic name := by
  obtain ⟨label, held⟩ := slot
  obtain rfl : held = some arg := hs
  simp only [Scope.resolveSlot]
  split
  case isTrue ht =>
    obtain ⟨arg', harg', hnd⟩ := h.resolveArg ha
    exact ⟨arg', by rw [harg', Except.map], fun name hn => absurd hn (hnd ht name)⟩
  case isFalse => exact ⟨arg, rfl, fun _ hn => hn⟩

/-- **The resolved frame of a call makes the scope of its body complete.** -/
theorem Complete.enter (h : scope.Complete) {frame : Frame} (hb : frame.Bound)
    (ha : ∀ arg ∈ frame.args, ∀ name ∈ arg.references, name ∈ scope.frame.names) :
    ∃ inner, scope.resolveFrame frame = .ok inner ∧ inner.names = frame.names ∧
      (Scope.child inner scope).Complete := by
  have hslot : ∀ slot ∈ frame.slots, ∃ slot', scope.resolveSlot slot = .ok slot' ∧
      slot'.1 = slot.1 ∧
      ∃ arg', slot'.2 = some arg' ∧ ∀ name, arg' = .dynamic name → name ∈ scope.frame.names := by
    intro slot hmem
    obtain ⟨arg, hs⟩ := hb slot hmem
    have hdecl := ha arg (List.mem_filterMap.2 ⟨slot, hmem, hs⟩)
    obtain ⟨arg', harg', hdyn⟩ := h.resolveSlot hs hdecl
    refine ⟨_, harg', rfl, arg', rfl, fun name hn => hdecl name ?_⟩
    rw [hdyn name hn]
    exact List.mem_cons_self
  obtain ⟨slots, hslots, hnames, hheld⟩ := exists_mapM_keyed Prod.fst Prod.fst hslot
  refine ⟨⟨slots⟩, by rw [resolveFrame, hslots, Except.map], hnames, ?_, ?_, h⟩
  · exact fun slot hmem => (hheld slot hmem).imp fun _ hs => hs.1
  · intro name hn
    obtain ⟨slot, hmem, hs⟩ := List.mem_filterMap.1 hn
    obtain ⟨arg', hs', hdyn⟩ := hheld slot hmem
    rw [hs] at hs'
    cases hs'
    exact hdyn name rfl

end

end Scope

end ScenarioBook
