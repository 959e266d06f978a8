import Mathlib.Data.List.Lex
import ScenarioBook.Path
import ScenarioBook.Proofs.Layout.Texts

/-!
# Paths of entries

A name of a directory entry is no dot, and holds no slash and no null character (`Path.IsName`). A
path with a name joined to it has one component more (`Path.components_join`). Paths are ordered by
their components (`Path.Precedes`): two entries of one directory stand to each other as their names
do, and so does all below them (`Path.precedes_of_names`).
-/

set_option autoImplicit false

namespace ScenarioBook

/-! ## The order of texts -/

namespace Text

theorem le_trans {s t u : Text} (hst : s.le t = true) (htu : t.le u = true) : s.le u = true :=
  Std.TransCmp.isLE_trans hst htu

theorem le_total (s t : Text) : (s.le t || t.le s) = true := by
  have hswap : compare t s = (compare s t).swap := Std.OrientedCmp.eq_swap
  rw [le, le, hswap]
  cases compare s t <;> rfl

end Text

namespace Path

/-! ## Names -/

/-- What a directory entry can be called. -/
structure IsName (name : Text) : Prop where
  nonempty : name ≠ []
  not_here : name ≠ ['.']
  not_up : name ≠ ['.', '.']
  slash : '/' ∉ name
  null : Char.ofNat 0 ∉ name
  short : name.utf8Size ≤ longestName

instance (name : Text) : Decidable (IsName name) :=
  decidable_of_iff
    (name ≠ [] ∧ name ≠ ['.'] ∧ name ≠ ['.', '.'] ∧ '/' ∉ name ∧ Char.ofNat 0 ∉ name ∧
      name.utf8Size ≤ longestName)
    ⟨fun ⟨h1, h2, h3, h4, h5, h6⟩ => ⟨h1, h2, h3, h4, h5, h6⟩,
      fun ⟨h1, h2, h3, h4, h5, h6⟩ => ⟨h1, h2, h3, h4, h5, h6⟩⟩

section
variable {path name : Text}

theorem IsName.not_isAbsolute (h : IsName name) : isAbsolute name = false := by
  rw [Bool.eq_false_iff, isAbsolute, Text.startsWith]
  intro habs
  rw [List.isPrefixOf_iff_prefix] at habs
  exact h.slash (habs.subset List.mem_cons_self)

theorem IsName.component? (h : IsName name) : component? name = some (.name name) := by
  simp [Path.component?, h.nonempty, h.not_here, h.not_up]

theorem IsName.splitOn (h : IsName name) : name.splitOn '/' = [name] :=
  List.splitOn_eq_singleton h.slash

theorem join_nil (h : IsName name) : join [] name = name := by
  simp [join, h.not_isAbsolute]

/-- A path is followed by its entry, with one slash in between. -/
theorem join_eq (h : IsName name) (hpath : path ≠ []) :
    ∃ dir, join path name = dir ++ '/' :: name ∧ (path = dir ∨ path = dir ++ ['/']) := by
  rw [join, h.not_isAbsolute]
  by_cases hend : Text.endsWith path ['/'] = true
  · obtain ⟨dir, hdir⟩ := List.isSuffixOf_iff_suffix.1 hend
    exact ⟨dir, by simp [hend, hdir ▸ List.append_assoc dir ['/'] name], .inr hdir.symm⟩
  · exact ⟨path, by simp [hend, hpath], .inl rfl⟩

theorem isAbsolute_cons (c : Char) (t : Text) : isAbsolute (c :: t) = (c == '/') := by
  simp [isAbsolute, Text.startsWith, List.isPrefixOf, Bool.beq_comm]

/-- What stands behind a slash adds its own components. -/
theorem components_concat (dir rest : Text) (hdir : dir ≠ []) :
    components (dir ++ '/' :: rest) =
      components dir ++ (List.splitOn '/' rest).filterMap component? := by
  obtain ⟨piece, pieces, hpieces⟩ := List.exists_cons_of_ne_nil (List.splitOn_ne_nil '/' dir)
  obtain ⟨c, cs, rfl⟩ := List.exists_cons_of_ne_nil hdir
  have hsplit : List.splitOn '/' (c :: (cs ++ '/' :: rest)) =
      piece :: (pieces ++ List.splitOn '/' rest) := by
    rw [← List.cons_append, List.splitOn_append_cons_self, hpieces, List.cons_append]
  have hmap : (piece :: (pieces ++ List.splitOn '/' rest)).filterMap component? =
      (piece :: pieces).filterMap component? ++
        (List.splitOn '/' rest).filterMap component? := by
    rw [← List.cons_append, List.filterMap_append]
  simp only [components, List.cons_append, isAbsolute_cons, hsplit, hpieces, List.head?_cons, hmap,
    List.append_assoc]

/-- **An entry of a directory has one component more.** -/
theorem components_join (h : IsName name) (path : Text) :
    components (join path name) = components path ++ [.name name] := by
  have hname : (List.splitOn '/' name).filterMap component? = [.name name] := by
    simp [h.splitOn, h.component?]
  by_cases hpath : path = []
  · subst hpath
    have hhere : (List.splitOn '/' name).head? ≠ some ['.'] := by simp [h.splitOn, h.not_here]
    rw [join_nil h, components, h.not_isAbsolute, if_neg Bool.false_ne_true, if_neg hhere, hname]
    rfl
  obtain ⟨dir, hjoin, hdir⟩ := join_eq h hpath
  rw [hjoin]
  by_cases hroot : dir = []
  · subst hroot
    obtain rfl : path = ['/'] := hdir.resolve_left hpath
    have hsplit : ∀ t, List.splitOn '/' ('/' :: t) = [] :: List.splitOn '/' t := fun t => by
      rw [List.splitOn_cons_eq_if_modifyHead, if_pos (beq_self_eq_true _)]
    simp only [List.nil_append, components, isAbsolute_cons, hsplit]
    simp [hname, component?]
  · rw [components_concat dir name hroot, hname]
    rcases hdir with rfl | rfl
    · rfl
    · rw [components_concat dir [] hroot]
      simp [component?]

end

/-- The path that goes down from a path by names. -/
def below (path : Text) (names : List Text) : Text := names.foldl join path

theorem below_append (path : Text) (names more : List Text) :
    below path (names ++ more) = below (below path names) more :=
  List.foldl_append ..

theorem components_below {names : List Text} (h : ∀ name ∈ names, IsName name) (path : Text) :
    components (below path names) = components path ++ names.map .name := by
  induction names generalizing path with
  | nil => simp [below]
  | cons name names ih =>
    obtain ⟨hname, hnames⟩ := List.forall_mem_cons.1 h
    rw [below, List.foldl_cons, ← below, ih hnames, components_join hname, List.append_assoc]
    rfl

/-- **Names are told apart by the paths they lead to.** -/
theorem below_injective {path : Text} {names names' : List Text}
    (h : ∀ name ∈ names, IsName name) (h' : ∀ name ∈ names', IsName name)
    (heq : below path names = below path names') : names = names' := by
  have hcomp := congrArg components heq
  rw [components_below h, components_below h', List.append_cancel_left_eq] at hcomp
  exact List.map_injective_iff.2 (fun _ _ => Component.name.inj) hcomp

/-! ## The order of paths -/

/-- The place of a kind of components in their order. -/
def Component.rank : Component → Nat
  | root => 0
  | here => 1
  | up => 2
  | name _ => 3

/-- The root comes first, then dots, then names by code points. -/
def Component.Before : Component → Component → Prop
  | name s, name t => s.le t = true ∧ s ≠ t
  | a, b => a.rank < b.rank

/-- The order of paths: component by component, a path before all below it. -/
def Precedes (p q : Text) : Prop := List.Lex Component.Before (components p) (components q)

theorem not_precedes_self (p : Text) : ¬ Precedes p p := by
  have hself : ∀ c : Component, ¬ c.Before c := by
    rintro (_ | _ | _ | name) h
    · exact Nat.lt_irrefl _ h
    · exact Nat.lt_irrefl _ h
    · exact Nat.lt_irrefl _ h
    · exact h.2 rfl
  have hlex : ∀ cs : List Component, ¬ List.Lex Component.Before cs cs := by
    intro cs
    induction cs with
    | nil => rintro ⟨⟩
    | cons c cs ih =>
      rintro (_ | h | h)
      · exact hself c h
      · exact ih h
  exact hlex _

/-- **Paths below one directory stand to each other as the first names that differ.** -/
theorem precedes_of_names {path p q s t : Text} {ps qs : List Text} (hle : s.le t = true)
    (hne : s ≠ t) (hp : components p = components path ++ .name s :: ps.map .name)
    (hq : components q = components path ++ .name t :: qs.map .name) : Precedes p q := by
  rw [Precedes, hp, hq]
  exact List.Lex.append_left _ (.rel ⟨hle, hne⟩) _

end Path

end ScenarioBook
