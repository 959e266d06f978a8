import ScenarioBook.Proofs.ConceptFile.Rebuilt

/-!
# Written concepts are read back

Writable concepts are read back from what any layout writes for them (`parse_concepts`): the same
concepts, up to their places in the source. The tokens of an item put the item behind those of the
open concept (`HoldsBody.item`), and the tokens of a concept put it behind the concepts that closing
the builder leaves (`Behind.concept`), by induction over the items and over the concepts.
-/

set_option autoImplicit false

namespace ScenarioBook

namespace ConceptBuilder

variable {b b' : ConceptBuilder} {files : FileSource} {done cs : List Concept} {c : Concept}
  {before : List Item} {i : Item} {ts : List Token}

/-! ## The items of a concept -/

/-- The builder has closed `done` and holds the concept with the items `before`, up to places. -/
structure HoldsBody (done : List Concept) (c : Concept) (before : List Item)
    (b : ConceptBuilder) : Prop where
  finished : b.finished.map Concept.bare = done.map Concept.bare
  current : ∃ c' tok items, b.current = some (c', tok) ∧ c'.bare = { c.bare with items := items } ∧
    items.map ConceptItem.toItem = before.map Item.bare
  focus : b.focus ≠ .nothing → ∃ prev ∈ before.getLast?, prev.step?.isSome
  preComments : b.preComments = []
  clean : Clean b.diagnostics

/-- A concept that gained an item is held with that item. -/
theorem HoldsBody.concat (h : HoldsBody done c before b) {i' : ConceptItem}
    (hi : i'.toItem.bare = i.bare) {focus : Focus} (hfocus : focus ≠ .nothing → i.step?.isSome) :
    HoldsBody done c (before ++ [i]) { b.mapCurrent (·.addItem i') with focus := focus } := by
  obtain ⟨c', tok, items, hcur, hbare, hitems⟩ := h.current
  have hbare' : (c'.addItem i').bare = { c.bare with items := items ++ [i'.bare] } := by
    have hadd : (c'.addItem i').bare = { c'.bare with items := c'.bare.items ++ [i'.bare] } := by
      rw [Concept.bare, Concept.addItem, List.map_append]
      rfl
    rw [hadd, hbare]
  rw [mapCurrent_of_some hcur]
  refine ⟨h.finished, ⟨_, tok, _, rfl, hbare', ?_⟩, fun hne => ⟨i, ?_, hfocus hne⟩,
    h.preComments, h.clean⟩
  · rw [List.map_append, List.map_append, hitems, List.map_singleton, List.map_singleton,
      ConceptItem.toItem_bare, hi]
  · rw [List.getLast?_concat]
    rfl

theorem comment_of_some {tok : Token} (h : b.current = some (c, tok)) (t : Token) :
    b.comment t =
      { b.mapCurrent (·.addItem (.comment ⟨t.asComment, t.lineNo⟩)) with focus := .nothing } := by
  rw [comment, mapCurrent_of_some h]
  simp only [h, Option.isSome_some, if_true, mapCurrent, Option.map_some]

/-- **The tokens of an item put it behind the items of the open concept.** -/
theorem HoldsBody.item (h : HoldsBody done c before b)
    (hi : i.FitsInConcept files c.formals.names before)
    (havoids : ∀ tree ∈ i.step?, tree.step.Avoids c.signature)
    (hts : i.ReadAs (trailAfter before) ts) :
    HoldsBody done c (before ++ [i]) (ts.foldl (accept files) b) := by
  obtain ⟨c', tok, items, hcur, hbare, -⟩ := h.current
  cases i with
  | comment comment =>
    rw [Item.ReadAs] at hts
    obtain ⟨t, rfl, ht, hkeep⟩ := hts
    have hkept : accept files b t = b.comment t :=
      accept_comment hi ht fun _ hfocus => h.focus (by rw [hfocus]; decide)
    rw [List.foldl_cons, List.foldl_nil, hkept, comment_of_some hcur]
    refine h.concat ?_ fun hne => absurd rfl hne
    rw [ConceptItem.toItem, Item.bare, Item.bare, hkeep]
  | step tree =>
    rw [Item.ReadAs] at hts
    have hnames : c'.formals.names = c.formals.names := (congrArg (·.formals.names) hbare :)
    have hsignature : c'.signature = c.signature := (congrArg Concept.signature hbare :)
    obtain ⟨s, focus, hs, hfold⟩ := foldl_step hcur hnames hi (hsignature ▸ havoids tree rfl) hts
    rw [hfold]
    refine h.concat ?_ fun _ => rfl
    rw [ConceptItem.toItem, Item.bare, Item.bare, ← hs]
    rfl
  | tags | dataTable | scenario | tearDown => cases hi

/-! ## Concepts in order -/

/-- Closing the builder leaves these concepts, up to places. -/
structure Behind (done : List Concept) (b : ConceptBuilder) : Prop where
  finished : b.finish.finished.map Concept.bare = done.map Concept.bare
  preComments : b.preComments = []
  clean : Clean b.finish.diagnostics

/-- A concept with a step is closed with all its items. -/
theorem HoldsBody.behind (h : HoldsBody done c (c.items.map ConceptItem.toItem) b)
    (hsteps : c.steps ≠ []) : Behind (done ++ [c]) b := by
  obtain ⟨c', tok, items, hcur, hbare, hitems⟩ := h.current
  have hsame : c'.bare = c.bare := by
    have : items = c.items.map ConceptItem.bare := by
      refine ConceptItem.toItem_injective.list_map ?_
      simpa [Function.comp_def, ConceptItem.toItem_bare] using hitems
    rw [hbare, this]
    rfl
  have hended : ∀ c₀ tok₀, b.current = some (c₀, tok₀) → c₀.steps ≠ [] := by
    intro c₀ tok₀ hcur₀ hnil
    cases hcur.symm.trans hcur₀
    have hmap := c'.steps_bare.symm.trans ((congrArg Concept.steps hsame).trans c.steps_bare)
    rw [hnil] at hmap
    exact hsteps (List.map_eq_nil_iff.1 hmap.symm)
  have hopened : b.opened = b.finished ++ [c'] := by rw [opened, hcur]; rfl
  refine ⟨?_, h.preComments, finish_eq hended ▸ h.clean⟩
  rw [finish_eq hended]
  simp only [hopened, List.map_append, h.finished, List.map_singleton, hsame]

/-- The comments `before` wait in `b'`, up to places. All else but the focus is as in `b`. -/
def Waits (b : ConceptBuilder) (before : List Item) (b' : ConceptBuilder) : Prop :=
  ∃ waiting focus, b' = { b with preComments := waiting, focus := focus } ∧
    waiting.map (fun c => Item.comment c.bare) = before.map Item.bare

/-- A comment waits for a concept while none is open. -/
theorem Waits.comment (h : Waits b before b') (hcur : b.current = none) {comment : Comment}
    (hi : comment.FitsInConcept before)
    (hts : Item.ReadAs (trailAfter before) (.comment comment) ts) :
    Waits b (before ++ [.comment comment]) (ts.foldl (accept files) b') := by
  obtain ⟨waiting, focus, rfl, hwaiting⟩ := h
  rw [Item.ReadAs] at hts
  obtain ⟨t, rfl, ht, hkeep⟩ := hts
  have hkept : accept files { b with preComments := waiting, focus := focus } t =
      ConceptBuilder.comment { b with preComments := waiting, focus := focus } t :=
    accept_comment hi ht fun hsome => by
      rw [show b.current = none from hcur] at hsome
      cases hsome
  refine ⟨waiting ++ [⟨t.asComment, t.lineNo⟩], .nothing, ?_, ?_⟩
  · rw [List.foldl_cons, List.foldl_nil, hkept, ConceptBuilder.comment]
    simp only [hcur, Option.isSome_none, Bool.false_eq_true, if_false]
  · rw [List.map_append, List.map_append, hwaiting, List.map_singleton, List.map_singleton,
      hkeep, Item.bare]
    rfl

/-- The comments before a concept wait for it. Only the first concept has any. -/
theorem waits_preComments (hb : b.preComments = []) {comments : List Comment}
    (hcur : comments ≠ [] → b.current = none)
    (h : FitAll (Item.FitsInConcept files []) [] (comments.map .comment))
    (hts : AllReadAs {} (comments.map .comment) ts) :
    Waits b (comments.map .comment) (ts.foldl (accept files) b) := by
  have hstart : Waits b [] b := ⟨[], b.focus, by rw [← hb], rfl⟩
  cases comments with
  | nil =>
    rw [List.map_nil, AllReadAs] at hts
    rw [hts]
    exact hstart
  | cons first comments =>
    have hcomment : ∀ i ∈ (first :: comments).map Item.comment, ∃ c, i = .comment c := by
      intro i hi
      obtain ⟨c, -, rfl⟩ := List.mem_map.1 hi
      exact ⟨c, rfl⟩
    refine rebuilt_all (P := Waits b) ?_ (h.and hcomment) hstart hts
    rintro before i b' ts hP ⟨hfits, comment, rfl⟩ hts
    exact hP.comment (hcur (List.cons_ne_nil _ _)) hfits hts

/-- Comments that wait change nothing of what closing the builder leaves. -/
theorem Waits.finish (h : Waits b before b') :
    b'.finish.finished = b.finish.finished ∧ b'.finish.diagnostics = b.finish.diagnostics := by
  obtain ⟨waiting, focus, rfl, -⟩ := h
  unfold ConceptBuilder.finish
  cases b.current with
  | none => exact ⟨rfl, rfl⟩
  | some ct =>
    simp only
    split <;> exact ⟨rfl, rfl⟩

theorem Waits.preComments {comments : List Comment} (h : Waits b (comments.map .comment) b') :
    b'.preComments.map Comment.bare = comments.map Comment.bare := by
  obtain ⟨waiting, focus, rfl, hwaiting⟩ := h
  have hcomment : Function.Injective Item.comment := fun _ _ h => by
    cases h
    rfl
  refine hcomment.list_map ?_
  simpa [Function.comp_def, Item.bare, Comment.bare] using hwaiting

theorem preComments_finish (b : ConceptBuilder) : b.finish.preComments = b.preComments := by
  have hends := b.ends_finish
  generalize b.finish = b' at hends
  cases hends <;> rfl

/-- **A written heading opens the concept that it was written for.** -/
theorem holdsBody_heading (hc : c.Writable files)
    (hfin : b.finish.finished.map Concept.bare = done.map Concept.bare)
    (hclean : Clean b.finish.diagnostics)
    (hpre : b.preComments.map Comment.bare = c.preComments.map Comment.bare) {t : Token}
    (ht : t.content = .heading .spec c.heading.text) :
    HoldsBody done c [] (accept files b t) := by
  obtain ⟨names, hscan, hargs, hformals⟩ := hc.scan_heading
  obtain ⟨scanned, htitled⟩ := hc.titled
  have hdynamic : ¬ (names.map fun n => (⟨.dynamic, n⟩ : RawArg)).any (·.kind != .dynamic) := by
    simp
  have htexts : (names.map fun n => (⟨.dynamic, n⟩ : RawArg)).map (·.text) = names := by
    rw [List.map_map]
    exact List.map_id names
  rw [accept, ht]
  simp only [heading, hscan, if_neg hdynamic]
  refine ⟨hfin, ⟨_, t, [], rfl, ?_, rfl⟩, fun hne => absurd rfl hne, rfl, hclean⟩
  simp only [conceptOf, Concept.bare, Step.bare, htexts, preComments_finish, hpre, hformals, hargs,
    htitled.untabled, List.map_nil]
  rfl

/-- **The tokens of a concept put it behind the concepts so far.** -/
theorem Behind.concept (h : Behind done b) (hc : c.Writable files)
    (hcur : c.preComments ≠ [] → b.current = none) (hts : c.ReadAs ts) :
    Behind (done ++ [c]) (ts.foldl (accept files) b) := by
  obtain ⟨us, t, vs, rfl, hus, ht, hvs⟩ := hts
  have hwaits := waits_preComments h.preComments hcur hc.fits.preComments hus
  obtain ⟨hfin, hdiag⟩ := hwaits.finish
  have hopened := holdsBody_heading hc (hfin ▸ h.finished) (hdiag ▸ h.clean) hwaits.preComments ht
  have havoids : ∀ i ∈ c.items.map ConceptItem.toItem, ∀ tree ∈ i.step?,
      tree.step.Avoids c.signature := by
    intro i hi tree htree
    obtain ⟨item, hitem, rfl⟩ := List.mem_map.1 hi
    cases item with
    | comment => cases htree
    | step s =>
      cases htree
      exact hc.avoids s (List.mem_filterMap.2 ⟨_, hitem, rfl⟩)
  have hbody := rebuilt_all (P := HoldsBody done c)
    (fun before i b' ts hP ⟨hfits, havoids⟩ hts => hP.item hfits havoids hts)
    (hc.fits.items.and havoids) hopened hvs
  rw [List.nil_append] at hbody
  rw [List.foldl_append, List.foldl_cons]
  exact hbody.behind hc.stepped

/-- **The tokens of all concepts rebuild them all.** -/
theorem Behind.concepts (h : Behind done b) (hc : ∀ c ∈ cs, c.Writable files)
    (hpre : cs.Pairwise fun _ c => c.preComments = [])
    (hcur : (∃ c ∈ cs, c.preComments ≠ []) → b.current = none) (hts : Concept.AllReadAs cs ts) :
    Behind (done ++ cs) (ts.foldl (accept files) b) := by
  induction cs generalizing done b ts with
  | nil =>
    obtain rfl : ts = [] := hts
    rwa [List.append_nil]
  | cons c cs ih =>
    obtain ⟨us, vs, rfl, hus, hvs⟩ := hts
    obtain ⟨hone, hall⟩ := List.forall_mem_cons.1 hc
    obtain ⟨hnone, hpre⟩ := List.pairwise_cons.1 hpre
    have hnext := ih (h.concept hone (fun hne => hcur ⟨c, List.mem_cons_self, hne⟩) hus) hall hpre
      (fun ⟨c, hc, hne⟩ => absurd (hnone c hc) hne) hvs
    rwa [List.foldl_append, List.append_cons]

end ConceptBuilder

/-! ## The concepts of a file -/

/-- **Writable concepts are read back from what is written for them**, up to their places, if
comments stand before the first one only. -/
theorem parse_concepts {files : FileSource} {cs : List Concept} (h : ∀ c ∈ cs, c.Writable files)
    (hpre : cs.Pairwise fun _ c => c.preComments = []) (lay : Layout) (fileName : Text) :
    ∃ again, Concept.parse (lay.concepts cs) fileName files = .ok again ∧
      again.document.map Concept.bare = cs.map Concept.bare := by
  obtain ⟨ts, htokens, hts⟩ := tokenize_concepts lay h hpre
  have hstart : ConceptBuilder.Behind [] (.start fileName) := ⟨rfl, rfl, clean_nil⟩
  have hbehind := hstart.concepts h hpre (fun _ => rfl) hts
  rw [List.nil_append] at hbehind
  have herrors := List.any_eq_false.2 fun x hx => Bool.eq_false_iff.1 (hbehind.clean x hx)
  refine ⟨⟨_, (ts.foldl (ConceptBuilder.accept files) (.start fileName)).finish.diagnostics⟩, ?_,
    hbehind.finished⟩
  rw [Concept.parse, htokens]
  simp only [bind, Except.bind, Concept.ofTokens, Parsed.settle, herrors]
  rfl

end ScenarioBook
