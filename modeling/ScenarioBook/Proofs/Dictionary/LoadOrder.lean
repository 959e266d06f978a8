import ScenarioBook.Proofs.Dictionary.Expansion

/-!
# The order of loading does not matter

Whether a history of batches is accepted depends only on the concepts in it: their signatures must
be distinct, and no signature may invoke itself through the bodies (`Loadable`). Both conditions are
about the collection and not about ids, so they hold in every order, and they hold of every part of
a collection of which they hold (`Loadable.of_sublist`). A batch is accepted exactly if all concepts
so far are loadable (`Aligned.add_accepted_iff`), and so is a history (`Aligned.accepts_iff`).

What a signature is found under does not depend on the order either (`Aligned.search?_congr`), and
expansion depends on nothing else (`Aligned.expandStep_congr`).
-/

set_option autoImplicit false

namespace ScenarioBook.Dictionary

open Relation

/-- Every batch of the history is accepted when its turn comes. -/
def Accepts (d : Dictionary) : List (List Concept) → Prop
  | [] => True
  | batch :: history => (d.add batch).2 = none ∧ (d.add batch).1.Accepts history

/-- A concept with the signature `caller` has a step with the value `callee`. -/
def Invokes (concepts : List Concept) (caller callee : Text) : Prop :=
  ∃ c ∈ concepts, c.signature = caller ∧ ∃ s ∈ c.steps, s.value = callee

/-- The signatures are distinct, and none invokes itself, directly or through others. -/
structure Loadable (concepts : List Concept) : Prop where
  distinct : (concepts.map Concept.signature).Nodup
  acyclic : ∀ signature, ¬ TransGen (Invokes concepts) signature signature

/-! ## Collections -/

section
variable {concepts concepts' : List Concept}

theorem Invokes.mono (h : concepts ⊆ concepts') {caller callee : Text}
    (hi : Invokes concepts caller callee) : Invokes concepts' caller callee := by
  obtain ⟨c, hc, hrest⟩ := hi
  exact ⟨c, h hc, hrest⟩

theorem Loadable.of_sublist (h : Loadable concepts') (hs : concepts.Sublist concepts') :
    Loadable concepts where
  distinct := h.distinct.sublist (hs.map _)
  acyclic signature hr :=
    h.acyclic signature (TransGen.mono (fun _ _ => Invokes.mono hs.subset) _ _ hr)

theorem Loadable.of_perm (h : Loadable concepts) (hp : concepts.Perm concepts') :
    Loadable concepts' where
  distinct := (hp.map _).nodup_iff.1 h.distinct
  acyclic signature hr :=
    h.acyclic signature (TransGen.mono (fun _ _ => Invokes.mono hp.symm.subset) _ _ hr)

end

section
variable {d d' : Dictionary}

/-! ## Links and invocations -/

theorem Indexed.idOf?_of_mem (h : d.Indexed) {c : Concept} (hc : c ∈ d.concepts) :
    ∃ id, d.concepts[id]? = some c ∧ d.idOf? c.signature = some id := by
  obtain ⟨id, hid⟩ := List.mem_iff_getElem?.1 hc
  exact ⟨id, hid, h.idOf?_eq_some_iff.2 ⟨c, hid, rfl⟩⟩

/-- Invocations that end at a known signature run along the links. -/
theorem Indexed.reaches_of_invokes (h : d.Indexed) {caller callee : Text}
    (hr : TransGen (Invokes d.concepts) caller callee) {target : Nat}
    (ht : d.idOf? callee = some target) :
    ∃ source, d.idOf? caller = some source ∧ TransGen (Calls d.links) source target := by
  have hlink : ∀ {caller next : Text} {target : Nat}, Invokes d.concepts caller next →
      d.idOf? next = some target →
      ∃ source, d.idOf? caller = some source ∧ Calls d.links source target := by
    rintro caller next target ⟨c, hc, rfl, s, hs, rfl⟩ hnext
    obtain ⟨source, hget, hsource⟩ := h.idOf?_of_mem hc
    exact ⟨source, hsource, h.calls_iff.2 ⟨c, hget, s, hs, hnext⟩⟩
  induction hr using TransGen.head_induction_on with
  | single hi =>
    obtain ⟨source, hsource, hcall⟩ := hlink hi ht
    exact ⟨source, hsource, .single hcall⟩
  | head hi _ ih =>
    obtain ⟨next, hnext, hreach⟩ := ih
    obtain ⟨source, hsource, hcall⟩ := hlink hi hnext
    exact ⟨source, hsource, .head hcall hreach⟩

/-- **The links form a circle exactly if the signatures do.** -/
theorem Indexed.acyclic_iff (h : d.Indexed) :
    Acyclic d.links ↔ ∀ signature, ¬ TransGen (Invokes d.concepts) signature signature := by
  constructor
  · intro hacyclic signature hr
    -- a signature that invokes something belongs to a concept
    obtain ⟨next, ⟨c, hc, rfl, -⟩, -⟩ := TransGen.head'_iff.1 hr
    obtain ⟨id, -, hid⟩ := h.idOf?_of_mem hc
    obtain ⟨source, hsource, hcircle⟩ := h.reaches_of_invokes hr hid
    obtain rfl : id = source := Option.some.inj (hid.symm.trans hsource)
    exact hacyclic id hcircle
  · intro hacyclic id hr
    let signatureOf (id : Nat) : Text := (d.concepts[id]?.map Concept.signature).getD []
    refine hacyclic (signatureOf id) (hr.lift signatureOf fun source target hcall => ?_)
    obtain ⟨c, hget, s, hs, hid⟩ := h.calls_iff.1 hcall
    obtain ⟨c', hget', hsig⟩ := h.idOf?_eq_some_iff.1 hid
    exact ⟨c, List.mem_of_getElem? hget, by simp [signatureOf, hget], s, hs,
      by simp [signatureOf, hget', hsig]⟩

theorem Aligned.loadable (h : d.Aligned) : Loadable d.concepts :=
  ⟨h.distinct, h.indexed.acyclic_iff.1 h.acyclic⟩

/-! ## Acceptance -/

/-- **A batch is accepted exactly if the concepts so far are loadable with it.** -/
theorem Aligned.add_accepted_iff (h : d.Aligned) (batch : List Concept) :
    (d.add batch).2 = none ↔ Loadable (d.concepts ++ batch) := by
  constructor
  · intro hadd
    have hnext := (h.add batch).loadable
    rwa [concepts_add h (Prod.ext rfl hadd)] at hnext
  · intro hload
    have hdup : firstDuplicate (d.signatures.map (·.1)) batch = none := by
      have hnd := hload.distinct
      rw [List.map_append, List.nodup_append] at hnd
      rw [h.signatures, map_fst_indexOf, firstDuplicate_eq_none_iff]
      exact ⟨hnd.2.1, fun c hc hold => hnd.2.2 _ hold _ (List.mem_map_of_mem hc) rfl⟩
    have hi := h.indexed_grown hdup
    have hacyclic : Acyclic (d.grown batch).links := by
      rw [hi.acyclic_iff, h.concepts_grown hdup]
      exact hload.acyclic
    have hback := backLink?_of_acyclic (fun _ _ hc => (hi.lt_of_calls hc).2) hacyclic
    rw [add_eq, hdup]
    simp only [hback]

/-- **A history is accepted exactly if all its concepts together are loadable.** -/
theorem Aligned.accepts_iff (h : d.Aligned) (history : List (List Concept)) :
    d.Accepts history ↔ Loadable (d.concepts ++ history.flatten) := by
  induction history generalizing d with
  | nil => simpa [Accepts] using h.loadable
  | cons batch history ih =>
    rw [Accepts, List.flatten_cons, ← List.append_assoc]
    constructor
    · rintro ⟨hadd, hrest⟩
      rwa [ih (h.add batch), concepts_add h (Prod.ext rfl hadd)] at hrest
    · intro hload
      have hadd := (h.add_accepted_iff batch).2 (hload.of_sublist (List.sublist_append_left _ _))
      refine ⟨hadd, (ih (h.add batch)).2 ?_⟩
      rwa [concepts_add h (Prod.ext rfl hadd)]

theorem Aligned.concepts_foldl_add (h : d.Aligned) {history : List (List Concept)}
    (ha : d.Accepts history) : (history.foldl (fun d batch => (d.add batch).1) d).concepts =
      d.concepts ++ history.flatten := by
  induction history generalizing d with
  | nil => simp
  | cons batch history ih =>
    rw [List.foldl_cons, ih (h.add batch) ha.2, concepts_add h (Prod.ext rfl ha.1),
      List.append_assoc, List.flatten_cons]

/-! ## Expansion -/

theorem Aligned.search?_eq_some_iff (h : d.Aligned) {signature : Text} {c : Concept} :
    d.search? signature = some c ↔ c ∈ d.concepts ∧ c.signature = signature := by
  rw [search?, Option.bind_eq_some_iff]
  constructor
  · rintro ⟨id, hid, hget⟩
    obtain ⟨c', hget', hsig⟩ := h.idOf?_eq_some_iff.1 hid
    obtain rfl : c = c' := Option.some.inj (hget.symm.trans hget')
    exact ⟨List.mem_of_getElem? hget, hsig⟩
  · rintro ⟨hc, rfl⟩
    obtain ⟨id, hget, hid⟩ := h.indexed.idOf?_of_mem hc
    exact ⟨id, hid, hget⟩

/-- The order of the concepts does not matter for what a signature is found under. -/
theorem Aligned.search?_congr (h : d.Aligned) (h' : d'.Aligned)
    (hp : d.concepts.Perm d'.concepts) (signature : Text) :
    d.search? signature = d'.search? signature := by
  ext c
  rw [h.search?_eq_some_iff, h'.search?_eq_some_iff, hp.mem_iff]

/-- **Expansion depends only on what signatures are found under**, not on ids. -/
theorem Aligned.expandStep_congr (h : d.Aligned) (h' : d'.Aligned)
    (hsearch : ∀ signature, d.search? signature = d'.search? signature) {id id' : Nat}
    {c : Concept} (hc : d.concepts[id]? = some c) (hc' : d'.concepts[id']? = some c)
    (t : StepTree) : d.expandStep id t = d'.expandStep id' t := by
  obtain ⟨c₁, body, hc₁, htree, hsteps, hbody⟩ :=
    (h.expandStep_unfolds (List.getElem?_eq_some_iff.1 hc).1 t).expanded h
  obtain ⟨c₂, body', hc₂, htree', hsteps', hbody'⟩ :=
    (h'.expandStep_unfolds (List.getElem?_eq_some_iff.1 hc').1 t).expanded h'
  obtain rfl : c = c₁ := Option.some.inj (hc.symm.trans hc₁)
  obtain rfl : c = c₂ := Option.some.inj (hc'.symm.trans hc₂)
  have hbodies : body = body' := eq_of_map_step_eq (hsteps.trans hsteps'.symm)
    fun b hb b' hb' => ((hbody b hb).congr hsearch).unique (hbody' b' hb')
  rw [htree, htree', hbodies]

theorem Aligned.map_expandStep_congr (h : d.Aligned) (h' : d'.Aligned)
    (hsearch : ∀ signature, d.search? signature = d'.search? signature) (signature : Text)
    (t : StepTree) : (d.idOf? signature).map (d.expandStep · t) =
      (d'.idOf? signature).map (d'.expandStep · t) := by
  cases hid : d.idOf? signature with
  | none =>
    have hnone : d'.idOf? signature = none := by
      rwa [← h'.search?_eq_none_iff, ← hsearch, h.search?_eq_none_iff]
    rw [hnone]
    rfl
  | some id =>
    obtain ⟨c, hc, -⟩ := h.idOf?_eq_some_iff.1 hid
    have hfound : d'.search? signature = some c := by rw [← hsearch, search?, hid]; exact hc
    obtain ⟨id', hid', hc'⟩ := Option.bind_eq_some_iff.1 hfound
    rw [hid', Option.map_some, Option.map_some, h.expandStep_congr h' hsearch hc hc' t]

theorem expand_eq_map (d : Dictionary) (t : StepTree) :
    d.expand t = ((d.idOf? t.step.value).map (d.expandStep · t)).getD t := by
  unfold expand
  cases d.idOf? t.step.value <;> rfl

end

/-- **The order of loading does not matter.** If two histories hold the same concepts, in any order
and split into batches in any way, every batch of the one is accepted exactly if every batch of the
other is. Then both dictionaries expand every step alike, as a call of the concept with any
signature and as a call of the concept with its own, and so every document. -/
theorem expand_after_perm {first second : List (List Concept)}
    (hp : first.flatten.Perm second.flatten) :
    (empty.Accepts first ↔ empty.Accepts second) ∧
    (empty.Accepts first →
      (∀ signature t, ((after first).idOf? signature).map ((after first).expandStep · t) =
        ((after second).idOf? signature).map ((after second).expandStep · t)) ∧
      (∀ t, (after first).expand t = (after second).expand t) ∧
      ∀ document, (after first).expandDocument document =
        (after second).expandDocument document) := by
  have haccept : empty.Accepts first ↔ empty.Accepts second := by
    rw [aligned_empty.accepts_iff, aligned_empty.accepts_iff]
    exact ⟨fun h => h.of_perm hp, fun h => h.of_perm hp.symm⟩
  refine ⟨haccept, fun hfirst => ?_⟩
  have hconcepts : (after first).concepts.Perm (after second).concepts := by
    rw [after, after, aligned_empty.concepts_foldl_add hfirst,
      aligned_empty.concepts_foldl_add (haccept.1 hfirst)]
    exact hp
  have hcalls := (aligned_after first).map_expandStep_congr (aligned_after second)
    ((aligned_after first).search?_congr (aligned_after second) hconcepts)
  have hexpand : (after first).expand = (after second).expand := by
    funext t
    rw [expand_eq_map, expand_eq_map, hcalls]
  refine ⟨hcalls, congrFun hexpand, fun document => ?_⟩
  rw [expandDocument, expandDocument, hexpand]

/-- Loaded before or behind the concept it calls, `tidy` has different ids and one expansion. -/
theorem expand_after_perm_tidy :
    (after [[tidy], [sweep]]).idOf? tidy.signature = some 0 ∧
    (after [[sweep, tidy]]).idOf? tidy.signature = some 1 ∧
    empty.Accepts [[tidy], [sweep]] ∧ empty.Accepts [[sweep, tidy]] ∧
    (after [[tidy], [sweep]]).expand tidyKitchen = (after [[sweep, tidy]]).expand tidyKitchen := by
  have haccept : empty.Accepts [[tidy], [sweep]] := ⟨by cbv, by cbv, trivial⟩
  have hp : ([[tidy], [sweep]] : List (List Concept)).flatten.Perm [[sweep, tidy]].flatten :=
    .swap sweep tidy []
  obtain ⟨hiff, hexpand⟩ := expand_after_perm hp
  exact ⟨by cbv, by cbv, haccept, hiff.1 haccept, (hexpand haccept).2.1 tidyKitchen⟩

end ScenarioBook.Dictionary
