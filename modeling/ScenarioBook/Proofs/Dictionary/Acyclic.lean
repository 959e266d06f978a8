import Mathlib.Logic.Relation
import ScenarioBook.Dictionary

/-!
# A search without back link proves that the links form no circle

The concepts that `Dictionary.explore` has done are listed so that every concept stands before the
concepts it calls (`Settled`): a concept is put in front once all its calls are in the list. No
circle runs through such a list (`Settled.acyclic`). The search keeps the list settled
(`settled_of_explore`), and when it ends without a back link the list has every root
(`settled_of_findBackLink`), so the whole graph is acyclic (`acyclic_of_backLink?`).

The search finds nothing else: the concepts that are not fresh lie on the call path, so a back link
closes a circle (`closes_of_explore`), and an acyclic graph has none (`backLink?_of_acyclic`).
-/

set_option autoImplicit false

namespace ScenarioBook.Dictionary

open Relation

/-- A step of the concept `source` is linked to the concept `target`. -/
def Calls (links : List (List (Option Nat))) (source target : Nat) : Prop :=
  some target ∈ links.getD source []

/-- No concept calls itself, directly or through others. -/
def Acyclic (links : List (List (Option Nat))) : Prop :=
  ∀ id, ¬ TransGen (Calls links) id id

/-- Every concept of the list stands before the concepts that it calls, all of which are listed. -/
def Settled (links : List (List (Option Nat))) : List Nat → Prop
  | [] => True
  | id :: ids => (∀ target, Calls links id target → target ∈ ids) ∧ Settled links ids

section
variable {links : List (List (Option Nat))}

/-! ## Settled lists -/

theorem Settled.mem_of_calls {ids : List Nat} (h : Settled links ids) {source target : Nat}
    (hs : source ∈ ids) (hc : Calls links source target) : target ∈ ids := by
  induction ids with
  | nil => cases hs
  | cons id ids ih =>
    rcases List.mem_cons.1 hs with rfl | hs
    · exact List.mem_cons_of_mem _ (h.1 target hc)
    · exact List.mem_cons_of_mem _ (ih h.2 hs)

theorem Settled.mem_of_reaches {ids : List Nat} (h : Settled links ids) {source target : Nat}
    (hs : source ∈ ids) (hr : TransGen (Calls links) source target) : target ∈ ids := by
  induction hr with
  | single hc => exact h.mem_of_calls hs hc
  | tail _ hc ih => exact h.mem_of_calls ih hc

/-- **No circle runs through a settled list.** -/
theorem Settled.acyclic {ids : List Nat} (h : Settled links ids) {id : Nat} (hid : id ∈ ids) :
    ¬ TransGen (Calls links) id id := by
  induction ids with
  | nil => cases hid
  | cons first ids ih =>
    intro hr
    -- a circle through the first concept goes on through its calls, which are in the rest
    have hrest : id ∈ ids := by
      rcases List.mem_cons.1 hid with rfl | hid
      · obtain ⟨next, hc, hback⟩ := TransGen.head'_iff.1 hr
        rcases (reflTransGen_iff_eq_or_transGen.1 hback) with rfl | hback
        · exact h.1 _ hc
        · exact h.2.mem_of_reaches (h.1 next hc) hback
      · exact hid
    exact ih h.2 hrest hr

/-! ## The search -/

/-- Exploring a concept keeps the list settled and extends it by that concept. `before` are the
calls followed so far. -/
theorem settled_of_explore {fresh done : List Nat} {source position : Nat}
    (before : List (Option Nat)) {calls : List (Option Nat)} {done' : List Nat}
    (h : explore links fresh done source position calls = .ok done')
    (hrow : links.getD source [] = before ++ calls) (hd : Settled links done)
    (hbefore : ∀ target, some target ∈ before → target ∈ done) :
    Settled links done' ∧ source ∈ done' ∧ ∀ id ∈ done, id ∈ done' := by
  fun_induction explore links fresh done source position calls generalizing before done' with
  | case1 fresh done source position =>
    cases h
    refine ⟨⟨fun target hc => ?_, hd⟩, List.mem_cons_self, fun id => List.mem_cons_of_mem _⟩
    rw [Calls, hrow, List.append_nil] at hc
    exact hbefore target hc
  | case2 fresh done source position rest ih =>
    refine ih (before ++ [none]) h (by rw [hrow, List.append_assoc]; rfl) hd ?_
    simpa using hbefore
  | case3 fresh done source position target rest hfresh hdone ih =>
    refine ih (before ++ [some target]) h
      (by rw [hrow, List.append_assoc]; rfl) hd ?_
    intro t ht
    rcases List.mem_append.1 ht with ht | ht
    · exact hbefore t ht
    · simp only [List.mem_singleton, Option.some.injEq] at ht
      exact ht ▸ hdone
  | case4 => cases h
  | case5 fresh done source position target rest hfresh hdone hlt done₁ hex ihinner ihrest =>
    obtain ⟨hd₁, htarget, hkeep₁⟩ := ihinner [] hex rfl hd (by simp)
    have hbefore₁ : ∀ t, some t ∈ before ++ [some target] → t ∈ done₁ := by
      intro t ht
      rcases List.mem_append.1 ht with ht | ht
      · exact hkeep₁ t (hbefore t ht)
      · simp only [List.mem_singleton, Option.some.injEq] at ht
        exact ht ▸ htarget
    obtain ⟨hd', hsource, hkeep⟩ :=
      ihrest (before ++ [some target]) h (by rw [hrow, List.append_assoc]; rfl) hd₁ hbefore₁
    exact ⟨hd', hsource, fun id hid => hkeep id (hkeep₁ id hid)⟩
  | case6 => cases h

theorem settled_of_findBackLink {ids done roots : List Nat}
    (h : findBackLink links ids done roots = none) (hd : Settled links done) :
    ∃ done', Settled links done' ∧ (∀ id ∈ done, id ∈ done') ∧ ∀ id ∈ roots, id ∈ done' := by
  induction roots generalizing done with
  | nil => exact ⟨done, hd, fun _ hid => hid, by simp⟩
  | cons root roots ih =>
    rw [findBackLink] at h
    split at h
    case isTrue hroot =>
      obtain ⟨done', hd', hkeep, hroots⟩ := ih h hd
      exact ⟨done', hd', hkeep, by simpa using ⟨hkeep root hroot, hroots⟩⟩
    case isFalse hroot =>
      split at h
      case h_1 => cases h
      case h_2 done₁ hex =>
        obtain ⟨hd₁, hroot₁, hkeep₁⟩ := settled_of_explore [] hex rfl hd (by simp)
        obtain ⟨done', hd', hkeep, hroots⟩ := ih h hd₁
        refine ⟨done', hd', fun id hid => hkeep id (hkeep₁ id hid), ?_⟩
        simpa using ⟨hkeep root hroot₁, hroots⟩

/-! ## Back links -/

/-- A call that closes a circle: the root reaches its source, and its target reaches its source
again. -/
structure BackLink.Closes (links : List (List (Option Nat))) (root : Nat) (back : BackLink) :
    Prop where
  linked : (links.getD back.source [])[back.position]? = some (some back.target)
  reached : ReflTransGen (Calls links) root back.source
  returns : ReflTransGen (Calls links) back.target back.source

theorem BackLink.Closes.calls {root : Nat} {back : BackLink} (h : back.Closes links root) :
    Calls links back.source back.target :=
  List.mem_of_getElem? h.linked

theorem BackLink.Closes.circle {root : Nat} {back : BackLink} (h : back.Closes links root) :
    TransGen (Calls links) back.source back.source :=
  .head' h.calls h.returns

/-- The calls that are left to follow, read off the row of links. -/
theorem row_of_drop {row : List (Option Nat)} {position : Nat} {call : Option Nat}
    {rest : List (Option Nat)} (h : row.drop position = call :: rest) :
    row[position]? = some call ∧ row.drop (position + 1) = rest := by
  rw [← List.head?_drop, ← List.tail_drop, h]
  exact ⟨rfl, rfl⟩

/-- A back link closes a circle: every concept that is not fresh is on the call path, so it reaches
the concept that is explored. -/
theorem closes_of_explore {ids fresh done : List Nat} {source position root : Nat}
    {calls : List (Option Nat)} {back : BackLink}
    (h : explore links fresh done source position calls = .error back)
    (hrow : (links.getD source []).drop position = calls)
    (hids : ∀ source target, Calls links source target → target ∈ ids)
    (hroot : ReflTransGen (Calls links) root source)
    (hpath : ∀ id ∈ ids, id ∉ fresh → ReflTransGen (Calls links) id source) :
    back.Closes links root := by
  fun_induction explore links fresh done source position calls with
  | case1 => cases h
  | case2 fresh done source position rest ih => exact ih h (row_of_drop hrow).2 hroot hpath
  | case3 fresh done source position target rest hfresh hdone ih =>
    exact ih h (row_of_drop hrow).2 hroot hpath
  | case4 fresh done source position target rest hfresh hdone hlt back' hex ihinner =>
    cases h
    have hcall : Calls links source target := List.mem_of_getElem? (row_of_drop hrow).1
    refine ihinner hex rfl (hroot.tail hcall) fun id hid hnot => ?_
    by_cases heq : id = target
    · exact heq ▸ .refl
    · exact (hpath id hid fun hmem => hnot ((List.mem_erase_of_ne heq).2 hmem)).tail hcall
  | case5 fresh done source position target rest hfresh hdone hlt done₁ hex ihinner ihrest =>
    exact ihrest h (row_of_drop hrow).2 hroot hpath
  | case6 fresh done source position target rest hfresh =>
    cases h
    have hlink := (row_of_drop hrow).1
    exact ⟨hlink, hroot, hpath target (hids source target (List.mem_of_getElem? hlink)) hfresh⟩

theorem closes_of_findBackLink {ids done roots : List Nat} {root : Nat} {back : BackLink}
    (h : findBackLink links ids done roots = some (root, back))
    (hids : ∀ source target, Calls links source target → target ∈ ids) :
    root ∈ roots ∧ back.Closes links root := by
  induction roots generalizing done with
  | nil => cases h
  | cons first roots ih =>
    rw [findBackLink] at h
    split at h
    case isTrue => exact (ih h).imp_left (List.mem_cons_of_mem _)
    case isFalse =>
      split at h
      case h_1 back' hex =>
        cases h
        refine ⟨List.mem_cons_self, closes_of_explore hex rfl hids .refl fun id hid hnot => ?_⟩
        by_cases heq : id = root
        · exact heq ▸ .refl
        · exact absurd ((List.mem_erase_of_ne heq).2 hid) hnot
      case h_2 => exact (ih h).imp_left (List.mem_cons_of_mem _)

end

section
variable {d : Dictionary}

/-- **The back link of a dictionary closes a circle.** -/
theorem closes_of_backLink? {root : Nat} {back : BackLink}
    (hids : ∀ source target, Calls d.links source target → target < d.size)
    (h : d.backLink? = some (root, back)) : root < d.size ∧ back.Closes d.links root := by
  obtain ⟨hroot, hclose⟩ := closes_of_findBackLink h fun source target hc =>
    List.mem_range.2 (hids source target hc)
  exact ⟨List.mem_range.1 hroot, hclose⟩

/-- **A dictionary without back link is acyclic.** -/
theorem acyclic_of_backLink? (hlen : d.links.length = d.size)
    (h : d.backLink? = none) : Acyclic d.links := by
  obtain ⟨done, hd, -, hall⟩ := settled_of_findBackLink h (show Settled d.links [] from trivial)
  intro id hr
  -- a concept that calls something has a row of links, so it is one of the roots
  have hid : id < d.size := by
    obtain ⟨next, hc, -⟩ := TransGen.head'_iff.1 hr
    refine Nat.lt_of_not_le fun hge => ?_
    rw [Calls, List.getD_eq_getElem?_getD, List.getElem?_eq_none (by omega)] at hc
    cases hc
  exact hd.acyclic (hall id (List.mem_range.2 hid)) hr

/-- **An acyclic dictionary has no back link.** -/
theorem backLink?_of_acyclic
    (hids : ∀ source target, Calls d.links source target → target < d.size)
    (h : Acyclic d.links) : d.backLink? = none := by
  cases hback : d.backLink? with
  | none => rfl
  | some found => exact absurd (closes_of_backLink? hids hback).2.circle (h _)

end

end ScenarioBook.Dictionary
