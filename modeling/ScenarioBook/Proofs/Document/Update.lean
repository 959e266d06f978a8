import Mathlib.Data.List.Induction
import ScenarioBook.Document

/-!
# Changing one element

What `updateFirst` and `updateLast` leave in a list: the old elements, and the changed one
(`mem_updateFirst`, `mem_updateLast`) in its place (`updateFirst_append`, `updateLast_concat`).
If there is a changeable element, one is changed and all others stay where they are
(`exists_updateFirst`, `exists_updateLast`). If an element is changeable just when a view shows it,
the changed one is the first or the last that is shown (`exists_updateFirst_of_findSome?`,
`exists_updateLast_of_getLast?`). What the change keeps of an element is kept of the whole list
(`map_updateFirst`, `map_updateLast`), and so is what elements hold if the change takes nothing away
(`flatMap_subset_updateLast`).
-/

set_option autoImplicit false

namespace ScenarioBook

section
variable {α : Type} {f : α → Option α} {as : List α} {a : α}

theorem mem_updateFirst (h : a ∈ updateFirst f as) : a ∈ as ∨ ∃ b ∈ as, f b = some a := by
  fun_induction updateFirst f as with
  | case1 => cases h
  | case2 b as c hb =>
    rcases List.mem_cons.1 h with rfl | h
    · exact .inr ⟨b, List.mem_cons_self, hb⟩
    · exact .inl (List.mem_cons_of_mem _ h)
  | case3 b as hb ih =>
    rcases List.mem_cons.1 h with rfl | h
    · exact .inl List.mem_cons_self
    · rcases ih h with h | ⟨c, hc, hf⟩
      · exact .inl (List.mem_cons_of_mem _ h)
      · exact .inr ⟨c, List.mem_cons_of_mem _ hc, hf⟩

theorem mem_updateLast (h : a ∈ updateLast f as) : a ∈ as ∨ ∃ b ∈ as, f b = some a := by
  rcases mem_updateFirst (List.mem_reverse.1 h) with h | ⟨b, hb, hf⟩
  · exact .inl (List.mem_reverse.1 h)
  · exact .inr ⟨b, List.mem_reverse.1 hb, hf⟩

theorem updateFirst_append (h : ∀ a ∈ as, f a = none) (bs : List α) :
    updateFirst f (as ++ bs) = as ++ updateFirst f bs := by
  induction as with
  | nil => rfl
  | cons a as ih =>
    obtain ⟨ha, has⟩ := List.forall_mem_cons.1 h
    simp only [List.cons_append, updateFirst, ha, ih has]

theorem updateLast_concat {b : α} (h : f a = some b) : updateLast f (as ++ [a]) = as ++ [b] := by
  simp [updateLast, updateFirst, h]

theorem updateLast_eq_self (h : ∀ a ∈ as, f a = none) : updateLast f as = as := by
  have hrev := updateFirst_append (fun a ha => h a (List.mem_reverse.1 ha)) []
  rw [List.append_nil, updateFirst, List.append_nil] at hrev
  rw [updateLast, hrev, List.reverse_reverse]

/-- The first changeable element is changed in its place. -/
theorem exists_updateFirst (h : ∃ a ∈ as, (f a).isSome) :
    ∃ before a b after, as = before ++ a :: after ∧ f a = some b ∧ (∀ c ∈ before, f c = none) ∧
      updateFirst f as = before ++ b :: after := by
  fun_induction updateFirst f as with
  | case1 =>
    obtain ⟨a, ha, -⟩ := h
    cases ha
  | case2 a as b hb =>
    exact ⟨[], a, b, as, rfl, hb, fun _ hc => (List.not_mem_nil hc).elim, rfl⟩
  | case3 a as hb ih =>
    obtain ⟨a', ha', hsome⟩ := h
    have hin : a' ∈ as := (List.mem_cons.1 ha').resolve_left fun heq => by
      rw [heq, hb] at hsome
      cases hsome
    obtain ⟨before, c, b, after, rfl, hc, hbefore, hupd⟩ := ih ⟨a', hin, hsome⟩
    exact ⟨a :: before, c, b, after, rfl, hc, List.forall_mem_cons.2 ⟨hb, hbefore⟩,
      by rw [hupd]; rfl⟩

/-- The last changeable element is changed in its place. -/
theorem exists_updateLast (h : ∃ a ∈ as, (f a).isSome) :
    ∃ before a b after, as = before ++ a :: after ∧ f a = some b ∧ (∀ c ∈ after, f c = none) ∧
      updateLast f as = before ++ b :: after := by
  obtain ⟨a, ha, hsome⟩ := h
  obtain ⟨after, c, b, before, hrev, hc, hafter, hupd⟩ :=
    exists_updateFirst ⟨a, List.mem_reverse.2 ha, hsome⟩
  refine ⟨before.reverse, c, b, after.reverse, ?_, hc,
    fun k hk => hafter k (List.mem_reverse.1 hk), ?_⟩
  · rw [← List.reverse_reverse as, hrev]
    simp
  · rw [updateLast, hupd]
    simp

/-! ## Elements that a view shows -/

section
variable {β : Type} {g : α → Option β} {b : β}

theorem exists_updateFirst_of_findSome? (hg : ∀ a, (f a).isSome = (g a).isSome)
    (h : as.findSome? g = some b) :
    ∃ before a a' after, as = before ++ a :: after ∧ g a = some b ∧ f a = some a' ∧
      updateFirst f as = before ++ a' :: after := by
  obtain ⟨c, hc, hgc⟩ := List.exists_of_findSome?_eq_some h
  obtain ⟨before, a, a', after, rfl, ha, hbefore, hupd⟩ :=
    exists_updateFirst ⟨c, hc, by rw [hg, hgc]; rfl⟩
  have hnone : before.findSome? g = none := List.findSome?_eq_none_iff.2 fun k hk => by
    rw [← Option.isNone_iff_eq_none, ← Option.not_isSome, ← hg, hbefore k hk]
    rfl
  have hsome : (g a).isSome := by
    rw [← hg, ha]
    rfl
  obtain ⟨b', hb'⟩ := Option.isSome_iff_exists.1 hsome
  have hsame : b' = b := by simpa [List.findSome?_append, hnone, hb'] using h
  exact ⟨before, a, a', after, rfl, hsame ▸ hb', ha, hupd⟩

theorem exists_updateLast_of_getLast? (hg : ∀ a, (f a).isSome = (g a).isSome)
    (h : (as.filterMap g).getLast? = some b) :
    ∃ before a a' after, as = before ++ a :: after ∧ g a = some b ∧ f a = some a' ∧
      after.filterMap g = [] ∧ updateLast f as = before ++ a' :: after := by
  obtain ⟨c, hc, hgc⟩ := List.mem_filterMap.1 (List.mem_of_getLast? h)
  obtain ⟨before, a, a', after, rfl, ha, hafter, hupd⟩ :=
    exists_updateLast ⟨c, hc, by rw [hg, hgc]; rfl⟩
  have hnil : after.filterMap g = [] := List.filterMap_eq_nil_iff.2 fun k hk => by
    rw [← Option.isNone_iff_eq_none, ← Option.not_isSome, ← hg, hafter k hk]
    rfl
  have hsome : (g a).isSome := by
    rw [← hg, ha]
    rfl
  obtain ⟨b', hb'⟩ := Option.isSome_iff_exists.1 hsome
  have hsame : b' = b := by simpa [hb', hnil] using h
  exact ⟨before, a, a', after, rfl, hsame ▸ hb', ha, hnil, hupd⟩

theorem updateLast_of_getLast? (hg : ∀ a, (f a).isSome = (g a).isSome)
    (h : (as.filterMap g).getLast? = none) : updateLast f as = as := by
  refine updateLast_eq_self fun a ha => ?_
  rw [← Option.isNone_iff_eq_none, ← Option.not_isSome, hg,
    List.filterMap_eq_nil_iff.1 (List.getLast?_eq_none_iff.1 h) a ha]
  rfl

end

/-! ## What a change keeps -/

variable {β : Type} {g : α → β}

theorem map_updateFirst (h : ∀ a b, f a = some b → g b = g a) :
    (updateFirst f as).map g = as.map g := by
  fun_induction updateFirst f as with
  | case1 => rfl
  | case2 a as b hb => simp [h a b hb]
  | case3 a as hb ih => simp [ih]

theorem map_updateLast (h : ∀ a b, f a = some b → g b = g a) :
    (updateLast f as).map g = as.map g := by
  rw [updateLast, List.map_reverse, map_updateFirst h, List.map_reverse, List.reverse_reverse]

variable {parts : α → List β}

theorem flatMap_subset_updateFirst (h : ∀ a b, f a = some b → parts a ⊆ parts b) :
    as.flatMap parts ⊆ (updateFirst f as).flatMap parts := by
  fun_induction updateFirst f as with
  | case1 => exact List.Subset.refl _
  | case2 a as b hb =>
    rw [List.flatMap_cons, List.flatMap_cons]
    exact List.append_subset.2 ⟨List.subset_append_of_subset_left _ (h a b hb),
      List.subset_append_right _ _⟩
  | case3 a as hb ih =>
    rw [List.flatMap_cons, List.flatMap_cons]
    exact List.append_subset.2 ⟨List.subset_append_left _ _,
      List.subset_append_of_subset_right _ ih⟩

theorem flatMap_subset_updateLast (h : ∀ a b, f a = some b → parts a ⊆ parts b) :
    as.flatMap parts ⊆ (updateLast f as).flatMap parts := by
  have hrev : as.reverse.flatMap parts ⊆ (updateFirst f as.reverse).flatMap parts :=
    flatMap_subset_updateFirst h
  intro b hb
  obtain ⟨a, ha, hb⟩ := List.mem_flatMap.1 hb
  obtain ⟨a', ha', hb⟩ := List.mem_flatMap.1 (hrev (List.mem_flatMap.2
    ⟨a, List.mem_reverse.2 ha, hb⟩))
  exact List.mem_flatMap.2 ⟨a', List.mem_reverse.2 ha', hb⟩

end

end ScenarioBook
