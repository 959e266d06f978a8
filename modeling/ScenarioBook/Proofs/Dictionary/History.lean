import Mathlib.Data.List.Nodup
import ScenarioBook.Proofs.Dictionary.Acyclic

/-!
# The three parts of a dictionary stay aligned

`Aligned d`: the signature index lists the signatures of the concepts in order, each with its id
and none twice, the links are those of the concepts, and they form no circle. Adding a batch keeps
this, whether the batch is accepted or refused (`Aligned.add`).

* **An accepted batch** is appended: its signatures are new and distinct, so each gets an entry of
  its own at the end (`foldl_push`), and the search that finds no back link proves the new links
  acyclic (`acyclic_of_backLink?`).
* **A refused batch** leaves no trace (`Aligned.add_refused`): since every entry of the batch stands
  behind the old ones, cutting to the former number removes exactly the batch, and the old links
  are the links of the old concepts (`Aligned.relink_truncate_grown`).

`after_lookup_links_acyclic` states the result for every history of batches.
-/

set_option autoImplicit false

namespace ScenarioBook.Dictionary

/-- The signature index of a list of concepts: each signature with its position. -/
def indexOf (concepts : List Concept) : List (Text × Nat) :=
  concepts.zipIdx.map fun entry => (entry.1.signature, entry.2)

/-- The parts of the dictionary fit together. -/
structure Aligned (d : Dictionary) : Prop where
  distinct : (d.concepts.map Concept.signature).Nodup
  signatures : d.signatures = indexOf d.concepts
  links : d.links = d.concepts.map d.linksOf
  acyclic : Acyclic d.links

/-- The index and the links are those of the concepts. -/
structure Indexed (d : Dictionary) : Prop where
  distinct : (d.concepts.map Concept.signature).Nodup
  signatures : d.signatures = indexOf d.concepts
  links : d.links = d.concepts.map d.linksOf

theorem Aligned.indexed {d : Dictionary} (h : d.Aligned) : d.Indexed :=
  ⟨h.distinct, h.signatures, h.links⟩

/-- The dictionary after a history of batches, refused ones included. -/
def after (history : List (List Concept)) : Dictionary :=
  history.foldl (fun d batch => (d.add batch).1) empty

/-! ## The signature index -/

theorem indexOf_append_singleton (concepts : List Concept) (c : Concept) :
    indexOf (concepts ++ [c]) = indexOf concepts ++ [(c.signature, concepts.length)] := by
  simp [indexOf, List.zipIdx_append]

theorem map_fst_indexOf (concepts : List Concept) :
    (indexOf concepts).map (·.1) = concepts.map Concept.signature := by
  have hmap : (indexOf concepts).map (·.1) =
      (concepts.zipIdx.map Prod.fst).map Concept.signature := by
    rw [indexOf, List.map_map, List.map_map]
    rfl
  rw [hmap, List.zipIdx_map_fst]

theorem take_indexOf_append (concepts batch : List Concept) :
    (indexOf (concepts ++ batch)).take concepts.length = indexOf concepts := by
  rw [indexOf, List.zipIdx_append, List.map_append]
  exact List.take_left' (by simp)

/-- Looking a signature up in the index gives the position of its concept. -/
theorem find?_indexOf {concepts : List Concept} (hd : (concepts.map Concept.signature).Nodup)
    {signature : Text} {id : Nat} :
    ((indexOf concepts).find? (·.1 == signature)).map (·.2) = some id ↔
      ∃ c, concepts[id]? = some c ∧ c.signature = signature := by
  rw [Option.map_eq_some_iff]
  constructor
  · rintro ⟨⟨s, i⟩, hfind, rfl⟩
    have hs : s = signature := by simpa using List.find?_some hfind
    have hmem := List.mem_of_find?_eq_some hfind
    simp only [indexOf, List.mem_map, Prod.exists, Prod.mk.injEq] at hmem
    obtain ⟨c, j, hcj, hc, rfl⟩ := hmem
    exact ⟨c, List.mk_mem_zipIdx_iff_getElem?.1 hcj, hc.trans hs⟩
  · rintro ⟨c, hc, rfl⟩
    have hmem : (c.signature, id) ∈ indexOf concepts :=
      List.mem_map.2 ⟨(c, id), List.mk_mem_zipIdx_iff_getElem?.2 hc, rfl⟩
    -- the entry that is found has the same signature, and signatures do not repeat
    have hsome : ((indexOf concepts).find? (·.1 == c.signature)).isSome :=
      List.find?_isSome.2 ⟨_, hmem, beq_self_eq_true c.signature⟩
    obtain ⟨⟨s, j⟩, hfind⟩ := Option.isSome_iff_exists.1 hsome
    have hs : s = c.signature := by simpa using List.find?_some hfind
    have hmem' := List.mem_of_find?_eq_some hfind
    have hnd : ((indexOf concepts).map (·.1)).Nodup := by rwa [map_fst_indexOf]
    have heq := List.inj_on_of_nodup_map hnd hmem' hmem hs
    exact ⟨_, hfind, by rw [heq]⟩

section
variable {d : Dictionary}

theorem Indexed.idOf?_eq_some_iff (h : d.Indexed) {signature : Text} {id : Nat} :
    d.idOf? signature = some id ↔ ∃ c, d.concepts[id]? = some c ∧ c.signature = signature := by
  rw [idOf?, h.signatures, find?_indexOf h.distinct]

theorem Indexed.calls_iff (h : d.Indexed) {source target : Nat} :
    Calls d.links source target ↔
      ∃ c, d.concepts[source]? = some c ∧ ∃ s ∈ c.steps, d.idOf? s.value = some target := by
  rw [Calls, h.links, List.getD_eq_getElem?_getD, List.getElem?_map]
  cases hs : d.concepts[source]? with
  | none => simp
  | some c => simp [linksOf]

theorem Indexed.lt_of_calls (h : d.Indexed) {source target : Nat}
    (hc : Calls d.links source target) : source < d.size ∧ target < d.size := by
  obtain ⟨c, hs, s, -, hid⟩ := h.calls_iff.1 hc
  obtain ⟨c', ht, -⟩ := h.idOf?_eq_some_iff.1 hid
  exact ⟨(List.getElem?_eq_some_iff.1 hs).1, (List.getElem?_eq_some_iff.1 ht).1⟩

theorem Aligned.idOf?_eq_some_iff (h : d.Aligned) {signature : Text} {id : Nat} :
    d.idOf? signature = some id ↔ ∃ c, d.concepts[id]? = some c ∧ c.signature = signature :=
  h.indexed.idOf?_eq_some_iff

theorem Aligned.idOf?_lt (h : d.Aligned) {signature : Text} {id : Nat}
    (hid : d.idOf? signature = some id) : id < d.size := by
  obtain ⟨c, hc, -⟩ := h.idOf?_eq_some_iff.1 hid
  exact (List.getElem?_eq_some_iff.1 hc).1

theorem Aligned.getElem?_links (h : d.Aligned) {id : Nat} {c : Concept}
    (hc : d.concepts[id]? = some c) : d.links[id]? = some (d.linksOf c) := by
  rw [h.links, List.getElem?_map, hc]
  rfl

theorem Aligned.length_links (h : d.Aligned) : d.links.length = d.size := by
  rw [h.links, List.length_map, size]

theorem Aligned.lt_of_calls (h : d.Aligned) {source target : Nat}
    (hc : Calls d.links source target) : source < d.size ∧ target < d.size :=
  h.indexed.lt_of_calls hc

/-! ## Adding a batch -/

/-- The first duplicate is missing exactly if all signatures are new and distinct. -/
theorem firstDuplicate_eq_none_iff {used : List Text} {batch : List Concept} :
    firstDuplicate used batch = none ↔
      (batch.map Concept.signature).Nodup ∧ ∀ c ∈ batch, c.signature ∉ used := by
  induction batch generalizing used with
  | nil => simp [firstDuplicate]
  | cons c cs ih =>
    rw [firstDuplicate]
    split
    case isTrue hused => simp_all
    case isFalse hused =>
      rw [ih]
      have hused : c.signature ∉ used := by simpa using hused
      simp only [List.map_cons, List.nodup_cons, List.mem_map, not_exists, not_and,
        List.mem_cons, not_or, forall_eq_or_imp]
      exact ⟨fun ⟨hnd, hnew⟩ => ⟨⟨fun e he heq => (hnew e he).1 heq, hnd⟩, hused,
          fun e he => (hnew e he).2⟩,
        fun ⟨⟨hne, hnd⟩, _, hnew⟩ => ⟨hnd, fun e he => ⟨hne e he, hnew e he⟩⟩⟩

theorem push_eq {concepts : List Concept} {c : Concept} {links : List (List (Option Nat))}
    (hnew : c.signature ∉ concepts.map Concept.signature) :
    push ⟨concepts, indexOf concepts, links⟩ c =
      ⟨concepts ++ [c], indexOf (concepts ++ [c]), links⟩ := by
  have hany : (indexOf concepts).any (·.1 == c.signature) = false := by
    rw [← map_fst_indexOf] at hnew
    simp only [List.any_eq_false, beq_iff_eq]
    exact fun e he heq => hnew (heq ▸ List.mem_map_of_mem he)
  simp only [push, setId, hany, size, indexOf_append_singleton]
  rfl

/-- Pushing new and distinct signatures appends concepts and index entries. -/
theorem foldl_push {concepts batch : List Concept} {links : List (List (Option Nat))}
    (hnd : (batch.map Concept.signature).Nodup)
    (hnew : ∀ c ∈ batch, c.signature ∉ concepts.map Concept.signature) :
    batch.foldl push ⟨concepts, indexOf concepts, links⟩ =
      ⟨concepts ++ batch, indexOf (concepts ++ batch), links⟩ := by
  induction batch generalizing concepts with
  | nil => simp
  | cons c cs ih =>
    rw [List.map_cons, List.nodup_cons] at hnd
    rw [List.foldl_cons, push_eq (hnew c List.mem_cons_self), ih hnd.2]
    · simp
    · intro e he
      rw [List.map_append, List.mem_append, not_or]
      refine ⟨hnew e (List.mem_cons_of_mem _ he), fun heq => hnd.1 ?_⟩
      simp only [List.map_cons, List.map_nil, List.mem_singleton] at heq
      exact heq ▸ List.mem_map_of_mem he

/-- The dictionary with a batch in place, before the search for circles. -/
def grown (d : Dictionary) (batch : List Concept) : Dictionary := (batch.foldl push d).relink

theorem Aligned.grown_eq (h : d.Aligned) {batch : List Concept}
    (hdup : firstDuplicate (d.signatures.map (·.1)) batch = none) :
    d.grown batch =
      relink ⟨d.concepts ++ batch, indexOf (d.concepts ++ batch), d.links⟩ := by
  rw [h.signatures, map_fst_indexOf, firstDuplicate_eq_none_iff] at hdup
  have hd : d = ⟨d.concepts, indexOf d.concepts, d.links⟩ := by rw [← h.signatures]
  rw [grown, hd, foldl_push hdup.1 hdup.2]

theorem Aligned.concepts_grown (h : d.Aligned) {batch : List Concept}
    (hdup : firstDuplicate (d.signatures.map (·.1)) batch = none) :
    (d.grown batch).concepts = d.concepts ++ batch := by
  rw [h.grown_eq hdup]
  rfl

theorem Aligned.distinct_append (h : d.Aligned) {batch : List Concept}
    (hdup : firstDuplicate (d.signatures.map (·.1)) batch = none) :
    ((d.concepts ++ batch).map Concept.signature).Nodup := by
  rw [h.signatures, map_fst_indexOf, firstDuplicate_eq_none_iff] at hdup
  rw [List.map_append, List.nodup_append]
  refine ⟨h.distinct, hdup.1, fun a ha b hb heq => ?_⟩
  obtain ⟨c, hc, rfl⟩ := List.mem_map.1 hb
  exact hdup.2 c hc (heq ▸ ha)

/-- With new and distinct signatures the parts are in order, circles aside. -/
theorem Aligned.indexed_grown (h : d.Aligned) {batch : List Concept}
    (hdup : firstDuplicate (d.signatures.map (·.1)) batch = none) : (d.grown batch).Indexed := by
  rw [h.grown_eq hdup]
  exact ⟨h.distinct_append hdup, rfl, rfl⟩

/-- **Taking a batch back restores every part of the dictionary.** -/
theorem Aligned.relink_truncate_grown (h : d.Aligned) {batch : List Concept}
    (hdup : firstDuplicate (d.signatures.map (·.1)) batch = none) :
    ((d.grown batch).truncate d.size).relink = d := by
  rw [h.grown_eq hdup]
  simp only [relink, truncate, size, List.take_left, take_indexOf_append]
  rw [← h.signatures]
  have hlinks := h.links
  cases d
  simp only [Dictionary.mk.injEq, true_and]
  exact hlinks.symm

theorem add_eq (d : Dictionary) (batch : List Concept) :
    d.add batch =
      match firstDuplicate (d.signatures.map (·.1)) batch with
      | some c => (d, some ⟨[duplicateDiagnostic c]⟩)
      | none =>
        match (d.grown batch).backLink? with
        | some (root, back) => (((d.grown batch).truncate d.size).relink,
            some ⟨[(d.grown batch).circleDiagnostic root back]⟩)
        | none => (d.grown batch, none) := rfl

theorem code_circleDiagnostic (d : Dictionary) (root : Nat) (back : BackLink) :
    (d.circleDiagnostic root back).code = some .e306 := by
  unfold circleDiagnostic
  split <;> rfl

/-- What an addition can do: refuse a duplicate or a circle and change nothing, or keep the grown
dictionary. -/
theorem Aligned.add_cases (h : d.Aligned) (batch : List Concept) :
    (∃ diagnostic, d.add batch = (d, some ⟨[diagnostic]⟩) ∧
      (diagnostic.code = some .e305 ∨ diagnostic.code = some .e306)) ∨
      firstDuplicate (d.signatures.map (·.1)) batch = none ∧
        (d.grown batch).backLink? = none ∧ d.add batch = (d.grown batch, none) := by
  rw [add_eq]
  split
  case h_1 c _ => exact .inl ⟨_, rfl, .inl rfl⟩
  case h_2 hdup =>
    split
    case h_1 root back _ =>
      rw [h.relink_truncate_grown hdup]
      exact .inl ⟨_, rfl, .inr (code_circleDiagnostic ..)⟩
    case h_2 hback => exact .inr ⟨hdup, hback, rfl⟩

/-- **A refused batch leaves the dictionary as it was.** -/
theorem Aligned.add_refused (h : d.Aligned) {batch : List Concept} {r : Rejection}
    (hr : (d.add batch).2 = some r) : (d.add batch).1 = d := by
  obtain ⟨diagnostic, hadd, -⟩ | ⟨-, -, hadd⟩ := h.add_cases batch
  · rw [hadd]
  · rw [hadd] at hr
    cases hr

/-- Adding keeps the parts aligned. -/
theorem Aligned.add (h : d.Aligned) (batch : List Concept) : (d.add batch).1.Aligned := by
  obtain ⟨diagnostic, hadd, -⟩ | ⟨hdup, hback, hadd⟩ := h.add_cases batch
  · rw [hadd]; exact h
  · rw [hadd]
    have hi := h.indexed_grown hdup
    refine ⟨hi.distinct, hi.signatures, hi.links, acyclic_of_backLink? ?_ hback⟩
    rw [hi.links, List.length_map, size]

theorem concepts_add {batch : List Concept} {d' : Dictionary} (h : d.Aligned)
    (hadd : d.add batch = (d', none)) : d'.concepts = d.concepts ++ batch := by
  obtain ⟨diagnostic, hcase, -⟩ | ⟨hdup, -, hcase⟩ := h.add_cases batch
  · rw [hcase] at hadd
    cases hadd
  · rw [hcase] at hadd
    cases hadd
    exact h.concepts_grown hdup

end

theorem aligned_empty : Aligned empty where
  distinct := List.nodup_nil
  signatures := rfl
  links := rfl
  acyclic := by
    intro id hr
    obtain ⟨next, hc, -⟩ := Relation.TransGen.head'_iff.1 hr
    simp [Calls, empty] at hc

/-- Every history keeps the parts aligned. -/
theorem aligned_after (history : List (List Concept)) : (after history).Aligned := by
  suffices ∀ d : Dictionary, d.Aligned →
      (history.foldl (fun d batch => (d.add batch).1) d).Aligned from this _ aligned_empty
  induction history with
  | nil => exact fun _ h => h
  | cons batch history ih => exact fun d h => ih _ (h.add batch)

/-- The concepts of a dictionary are ones that were added. -/
theorem mem_flatten_of_mem_after {history : List (List Concept)} {c : Concept}
    (hc : c ∈ (after history).concepts) : c ∈ history.flatten := by
  suffices ∀ d : Dictionary, d.Aligned →
      c ∈ (history.foldl (fun d batch => (d.add batch).1) d).concepts →
      c ∈ d.concepts ∨ c ∈ history.flatten by
    simpa [empty] using this empty aligned_empty hc
  clear hc
  induction history with
  | nil => exact fun d _ hc => .inl hc
  | cons batch history ih =>
    intro d h hc
    rw [List.flatten_cons, List.mem_append, ← or_assoc]
    refine (ih _ (h.add batch) hc).imp_left fun hc => ?_
    obtain ⟨diagnostic, hadd, -⟩ | ⟨hdup, -, hadd⟩ := h.add_cases batch
    · rw [hadd] at hc
      exact .inl hc
    · rw [hadd, h.concepts_grown hdup] at hc
      exact List.mem_append.1 hc

/-- **The parts of every dictionary agree.** A signature has the id `id` exactly if the concept
with that id has it, and no signature occurs twice. Every concept has a row of links, with one entry
for each of its steps: the id of the concept that the step's value names. All linked ids are in use,
and the links form no circle. -/
theorem after_lookup_links_acyclic (history : List (List Concept)) :
    let d := after history
    (∀ signature id, d.idOf? signature = some id ↔
      id < d.size ∧ (d.concepts[id]?).map Concept.signature = some signature) ∧
    (d.concepts.map Concept.signature).Nodup ∧
    d.links.length = d.size ∧
    (∀ (id : Nat) (c : Concept), d.concepts[id]? = some c →
      d.links[id]? = some (c.steps.map fun s => d.idOf? s.value)) ∧
    (∀ source target, Calls d.links source target → source < d.size ∧ target < d.size) ∧
    Acyclic d.links := by
  intro d
  have h : d.Aligned := aligned_after history
  refine ⟨fun signature id => ?_, h.distinct, h.length_links, fun id c hc => h.getElem?_links hc,
    fun source target hc => h.lt_of_calls hc, h.acyclic⟩
  rw [h.idOf?_eq_some_iff]
  constructor
  · rintro ⟨c, hc, rfl⟩
    exact ⟨(List.getElem?_eq_some_iff.1 hc).1, by rw [hc]; rfl⟩
  · rintro ⟨-, hsig⟩
    exact Option.map_eq_some_iff.1 hsig

end ScenarioBook.Dictionary
