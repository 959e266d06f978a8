import Mathlib.Data.Finset.Card
import Mathlib.Data.Finset.Filter
import Mathlib.Data.Finset.Range
import Mathlib.Data.List.Permutation
import ScenarioBook.Proofs.Dictionary.History

/-!
# Expansion ends and leaves nothing unexpanded

`Unfolds d n id s t` is expansion without a bound: the links are followed as long as there are any,
and `n` limits how many calls stand inside each other. `Expanded d t` says what a finished tree
looks like, in terms of signatures only: every step with a known signature is a call of the concept
that the signature is found under, with that concept's steps below it, and every other step stands
alone.

* **Expansion ends** (`Aligned.unfolds_expandWithin`): a concept that is called reaches fewer
  concepts than the one that calls it (`Aligned.card_reached_lt`), because the links form no circle.
  So at most as many calls are nested as there are concepts, and the bound of
  `Dictionary.expandWithin` is never met.
* **Expansion is complete** (`Unfolds.expanded`): the links agree with a search for the signature at
  every level.
* **There is one expansion** (`Expanded.unique`): a finished tree depends only on its step and on
  what `Dictionary.search?` finds.
-/

set_option autoImplicit false

namespace ScenarioBook.Dictionary

open Relation

/-- The step `s`, made a call of the concept `id` by following the links to their end, is `t`, with
at most `n` calls nested. -/
inductive Unfolds (d : Dictionary) : Nat → Nat → Step → StepTree → Prop
  | call {n id : Nat} {s : Step} {c : Concept} {unfold : Step × Option Nat → StepTree}
      (hc : d.concepts[id]? = some c)
      (halone : ∀ step, (step, none) ∈ c.steps.zip (d.links.getD id []) →
        unfold (step, none) = .ofStep step)
      (hcall : ∀ step nested, (step, some nested) ∈ c.steps.zip (d.links.getD id []) →
        Unfolds d n nested step (unfold (step, some nested))) :
      Unfolds d (n + 1) id s
        (.call s (c.formals.bind s.args) ((c.steps.zip (d.links.getD id [])).map unfold))

/-- Every step of the tree with a known signature is a call of its concept, and every other stands
alone. -/
inductive Expanded (d : Dictionary) : StepTree → Prop
  | alone {s : Step} (hs : d.search? s.value = none) : Expanded d (.ofStep s)
  | call {s : Step} {c : Concept} {body : List StepTree} (hs : d.search? s.value = some c)
      (hsteps : body.map StepTree.step = c.steps) (hbody : ∀ t ∈ body, Expanded d t) :
      Expanded d (.call s (c.formals.bind s.args) body)

section
variable {d : Dictionary}

/-! ## Links and signatures -/

theorem Aligned.search?_eq_none_iff (h : d.Aligned) {signature : Text} :
    d.search? signature = none ↔ d.idOf? signature = none := by
  cases hid : d.idOf? signature with
  | none => simp [search?, hid]
  | some id =>
    obtain ⟨c, hc, -⟩ := h.idOf?_eq_some_iff.1 hid
    simp [search?, hid, hc]

/-- The steps of a concept with their links: each with the id of its own value. -/
theorem Aligned.zip_links (h : d.Aligned) {id : Nat} {c : Concept}
    (hc : d.concepts[id]? = some c) :
    c.steps.zip (d.links.getD id []) = c.steps.map fun step => (step, d.idOf? step.value) := by
  rw [List.getD_eq_getElem?_getD, h.getElem?_links hc, Option.getD_some, linksOf,
    ← List.map_prod_left_eq_zip]

theorem Aligned.calls_of_mem_zip (h : d.Aligned) {id nested : Nat} {c : Concept} {step : Step}
    (hmem : (step, some nested) ∈ c.steps.zip (d.links.getD id [])) :
    Calls d.links id nested ∧ ∃ c', d.concepts[nested]? = some c' := by
  have hcalls : Calls d.links id nested := (List.of_mem_zip hmem).2
  exact ⟨hcalls, _, List.getElem?_eq_getElem (h.lt_of_calls hcalls).2⟩

/-- In an aligned dictionary a step of the body is expanded by its own value. -/
theorem Aligned.expandWithin_succ (h : d.Aligned) {id : Nat} {c : Concept}
    (hget : d.concepts[id]? = some c) (depth : Nat) (s : Step) :
    d.expandWithin (depth + 1) id s = .call s (c.formals.bind s.args) (c.steps.map fun step =>
      match d.idOf? step.value with
      | none => .ofStep step
      | some nested => d.expandWithin depth nested step) := by
  simp only [expandWithin, hget, h.zip_links hget, List.map_map]
  rfl

/-! ## Expansion ends -/

open Classical in
/-- The concepts that a concept reaches by calls, itself included. -/
noncomputable def reached (d : Dictionary) (id : Nat) : Finset Nat :=
  (Finset.range d.size).filter (ReflTransGen (Calls d.links) id)

theorem mem_reached {id target : Nat} :
    target ∈ d.reached id ↔ target < d.size ∧ ReflTransGen (Calls d.links) id target := by
  simp [reached]

theorem card_reached_le (d : Dictionary) (id : Nat) : (d.reached id).card ≤ d.size := by
  have hsub : d.reached id ⊆ Finset.range d.size := fun target ht =>
    Finset.mem_range.2 (mem_reached.1 ht).1
  simpa using Finset.card_le_card hsub

theorem card_reached_pos {id : Nat} (hid : id < d.size) : 0 < (d.reached id).card :=
  Finset.card_pos.2 ⟨id, mem_reached.2 ⟨hid, .refl⟩⟩

/-- **A called concept reaches fewer concepts than its caller.** -/
theorem Aligned.card_reached_lt (h : d.Aligned) {source target : Nat}
    (hc : Calls d.links source target) : (d.reached target).card < (d.reached source).card := by
  have hsub : d.reached target ⊆ d.reached source := by
    intro id hid
    obtain ⟨hlt, hreach⟩ := mem_reached.1 hid
    exact mem_reached.2 ⟨hlt, .head hc hreach⟩
  refine Finset.card_lt_card ((Finset.ssubset_iff_of_subset hsub).2 ⟨source, ?_, fun hback => ?_⟩)
  · exact mem_reached.2 ⟨(h.lt_of_calls hc).1, .refl⟩
  · -- a called concept that reaches its caller closes a circle
    exact h.acyclic source (.head' hc (mem_reached.1 hback).2)

/-- **Expansion ends** before its bound is met, if the bound is not below the number of concepts
that are reached. -/
theorem Aligned.unfolds_expandWithin (h : d.Aligned) {n id : Nat} (hid : id < d.size)
    (hn : (d.reached id).card ≤ n) (s : Step) : d.Unfolds n id s (d.expandWithin n id s) := by
  induction n generalizing id s with
  | zero =>
    have := card_reached_pos hid
    omega
  | succ n ih =>
    have hc : d.concepts[id]? = some (d.concepts[id]) := List.getElem?_eq_getElem hid
    simp only [expandWithin, hc]
    refine .call hc (fun step _ => rfl) fun step nested hmem => ?_
    obtain ⟨hcalls, -⟩ := h.calls_of_mem_zip hmem
    have hlt := h.card_reached_lt hcalls
    exact ih (h.lt_of_calls hcalls).2 (by omega) step

/-! ## Expansion is complete -/

theorem Unfolds.step_eq {n id : Nat} {s : Step} {t : StepTree} (hu : d.Unfolds n id s t) :
    t.step = s := by
  cases hu
  rfl

/-- **A tree that is unfolded to its end is expanded at every level.** -/
theorem Unfolds.expanded (h : d.Aligned) {n id : Nat} {s : Step} {t : StepTree}
    (hu : d.Unfolds n id s t) :
    ∃ c body, d.concepts[id]? = some c ∧ t = .call s (c.formals.bind s.args) body ∧
      body.map StepTree.step = c.steps ∧ ∀ b ∈ body, d.Expanded b := by
  induction hu with
  | @call n id s c unfold hc halone hcall ih =>
    rw [h.zip_links hc] at halone hcall ih ⊢
    have hentry : ∀ step ∈ c.steps, (unfold (step, d.idOf? step.value)).step = step ∧
        d.Expanded (unfold (step, d.idOf? step.value)) := by
      intro step hstep
      have hmem := List.mem_map_of_mem (f := fun step => (step, d.idOf? step.value)) hstep
      cases hid : d.idOf? step.value with
      | none =>
        rw [hid] at hmem
        rw [halone step hmem]
        exact ⟨rfl, .alone (h.search?_eq_none_iff.2 hid)⟩
      | some nested =>
        rw [hid] at hmem
        obtain ⟨c', body, hc', htree, hsteps, hbody⟩ := ih step nested hmem
        have hsearch : d.search? step.value = some c' := by rw [search?, hid]; exact hc'
        refine ⟨(hcall step nested hmem).step_eq, ?_⟩
        rw [htree]
        exact .call hsearch hsteps hbody
    refine ⟨c, _, hc, rfl, ?_, fun b hb => ?_⟩
    · rw [List.map_map, List.map_map]
      exact (List.map_congr_left fun step hstep => (hentry step hstep).1).trans (List.map_id _)
    · rw [List.map_map] at hb
      obtain ⟨step, hstep, rfl⟩ := List.mem_map.1 hb
      exact (hentry step hstep).2

/-! ## There is one expansion -/

theorem Expanded.congr {d' : Dictionary} (hsearch : ∀ signature, d.search? signature =
    d'.search? signature) {t : StepTree} (h : d.Expanded t) : d'.Expanded t := by
  induction h with
  | alone hs => exact .alone (hsearch _ ▸ hs)
  | call hs hsteps _ ih => exact .call (hsearch _ ▸ hs) hsteps ih

theorem eq_of_map_step_eq {body body' : List StepTree}
    (h : body.map StepTree.step = body'.map StepTree.step)
    (hinj : ∀ t ∈ body, ∀ t' ∈ body', t.step = t'.step → t = t') : body = body' := by
  induction body generalizing body' with
  | nil => exact (List.map_eq_nil_iff.1 h.symm).symm
  | cons t body ih =>
    obtain ⟨t', body', rfl, hstep, hsteps⟩ := List.map_eq_cons_iff.1 h.symm
    have ht := hinj t List.mem_cons_self t' List.mem_cons_self hstep.symm
    rw [ht, ih hsteps.symm fun u hu u' hu' =>
      hinj u (List.mem_cons_of_mem _ hu) u' (List.mem_cons_of_mem _ hu')]

/-- **An expanded tree is determined by its step.** -/
theorem Expanded.unique {t t' : StepTree} (h : d.Expanded t) (h' : d.Expanded t')
    (hstep : t.step = t'.step) : t = t' := by
  induction h generalizing t' with
  | @alone s hs =>
    cases h' with
    | alone => exact congrArg StepTree.ofStep hstep
    | call hs' =>
      obtain rfl : s = _ := hstep
      rw [hs] at hs'
      cases hs'
  | @call s c body hs hsteps hbody ih =>
    cases h' with
    | alone hs' =>
      obtain rfl : s = _ := hstep
      rw [hs] at hs'
      cases hs'
    | @call _ c' body' hs' hsteps' hbody' =>
      obtain rfl : s = _ := hstep
      obtain rfl : c = c' := Option.some.inj (hs.symm.trans hs')
      have hbodies : body = body' := eq_of_map_step_eq (hsteps.trans hsteps'.symm)
        fun t ht t' ht' => ih t ht (hbody' t' ht')
      rw [hbodies]

theorem Aligned.expandStep_unfolds (h : d.Aligned) {id : Nat} (hid : id < d.size) (t : StepTree) :
    d.Unfolds d.size id t.step (d.expandStep id t) := by
  rw [expandStep, if_pos hid]
  exact h.unfolds_expandWithin hid (d.card_reached_le id) t.step

end

/-- **Every expansion ends and is complete.** Whatever was added before, making a step a call of a
known concept nests at most as many calls as there are concepts. The call binds the formal
parameters to the arguments of the step, and its body has the steps of the concept in order. At
every level below, a step with a known signature is a call of the concept found under that
signature, made in the same way, and every other step is there as it stands in the concept. -/
theorem after_expandStep (history : List (List Concept)) {id : Nat} {c : Concept}
    (hc : (after history).concepts[id]? = some c) (t : StepTree) :
    let d := after history
    d.Unfolds d.size id t.step (d.expandStep id t) ∧
    ∃ body, d.expandStep id t = .call t.step (c.formals.bind t.step.args) body ∧
      body.map StepTree.step = c.steps ∧ ∀ b ∈ body, d.Expanded b := by
  intro d
  have h : d.Aligned := aligned_after history
  have hu := h.expandStep_unfolds (List.getElem?_eq_some_iff.1 hc).1 t
  obtain ⟨c', body, hc', htree, hsteps, hbody⟩ := hu.expanded h
  obtain rfl : c = c' := Option.some.inj (hc.symm.trans hc')
  exact ⟨hu, body, htree, hsteps, hbody⟩

/-! ## A call written before the concept it calls -/

/-- A concept with one parameter, which its only step hands on. -/
def handingOn (signature formal call : String) : Concept where
  fileName := []
  heading := ⟨1, signature.toList, [], [.dynamic formal.toList], false⟩
  formals := .ofNames [formal.toList]
  items := [.step ⟨2, call.toList, [], [.dynamic formal.toList], false⟩]
  preComments := []

def tidy : Concept := handingOn "tidy \x7b\x7d" "room" "sweep \x7b\x7d"

def sweep : Concept := handingOn "sweep \x7b\x7d" "floor" "take the broom to \x7b\x7d"

/-- A call of `tidy` with a literal. -/
def tidyKitchen : StepTree :=
  .ofStep ⟨1, tidy.signature, [], [.literal "kitchen".toList], false⟩

theorem after_expandStep_tidy :
    let d := after [[tidy], [sweep]]
    d.concepts[0]? = some tidy ∧
    d.Unfolds d.size 0 tidyKitchen.step (d.expandStep 0 tidyKitchen) ∧
    ∃ body, d.expandStep 0 tidyKitchen =
        .call tidyKitchen.step (tidy.formals.bind tidyKitchen.step.args) body ∧
      body.map StepTree.step = tidy.steps ∧ ∀ b ∈ body, d.Expanded b := by
  have hc : (after [[tidy], [sweep]]).concepts[0]? = some tidy := by cbv
  exact ⟨hc, after_expandStep [[tidy], [sweep]] hc tidyKitchen⟩

end ScenarioBook.Dictionary
