import ScenarioBook.Proofs.Dictionary.History

/-!
# The search for circles ends with the right answer

`Search.turn` is the search as a loop: instead of nested calls it has a stack of visits, a mark for
every concept on the stack and one for every concept that is done, and a turn looks at one link.
An index that no list has would stop it (`Turn.outOfRange`).

* **The loop is the recursion.** A turn keeps the marks in step with the stack (`Search.exploring`),
  and from a visit on top of the stack the loop gives the answer of `explore`, or takes the visit
  away with the concept marked as done (`Search.ends_of_explore`). So it ends, within all ranges,
  and its answer is `backLink?` (`Search.ends_start`).
* **The answer is exact.** There is one exactly if the links have a circle, and the concept and the
  step that it names close one (`closes_of_backLink?`, `exists_of_link`).

`search_ends_exact` puts the two together for every dictionary that a batch is searched in.
-/

set_option autoImplicit false

namespace ScenarioBook.Dictionary

open Relation

/-! ## The search as a loop -/

/-- A concept on the call path and the position of its next call. -/
structure Visit where
  concept : Nat
  next : Nat
deriving DecidableEq, Repr

/-- What the loop keeps: the concepts still to start from, the one it started from, the call path
with its last visit first, and the marks of the concepts that are on the path and that are done. -/
structure Search where
  roots : List Nat
  root : Nat
  stack : List Visit
  onPath : List Bool
  done : List Bool
deriving DecidableEq, Repr

/-- What a turn of the loop comes to. -/
inductive Turn where
  | next (s : Search)
  | ended (answer : Option (Nat × BackLink))
  | outOfRange
deriving DecidableEq, Repr

namespace Search

/-- Before the first turn nothing is marked. -/
def start (count : Nat) : Search :=
  ⟨List.range count, 0, [], List.replicate count false, List.replicate count false⟩

/-- One turn: the last visit follows its next call, or leaves the path when there is none. Without
a visit the next root that is not done is entered. -/
def turn (links : List (List (Option Nat))) (s : Search) : Turn :=
  match s.stack with
  | [] =>
    match s.roots with
    | [] => .ended none
    | root :: roots =>
      match s.done[root]? with
      | none => .outOfRange
      | some true => .next { s with roots := roots }
      | some false =>
        .next { s with
          roots := roots
          root := root
          stack := [⟨root, 0⟩]
          onPath := s.onPath.set root true }
  | ⟨current, next⟩ :: below =>
    match links[current]? with
    | none => .outOfRange
    | some row =>
      match row[next]? with
      | none =>
        .next { s with
          stack := below
          onPath := s.onPath.set current false
          done := s.done.set current true }
      | some none => .next { s with stack := ⟨current, next + 1⟩ :: below }
      | some (some target) =>
        match s.onPath[target]?, s.done[target]? with
        | some true, _ => .ended (some (s.root, ⟨current, next, target⟩))
        | some false, some true => .next { s with stack := ⟨current, next + 1⟩ :: below }
        | some false, some false =>
          .next { s with
            stack := ⟨target, 0⟩ :: ⟨current, next + 1⟩ :: below
            onPath := s.onPath.set target true }
        | _, _ => .outOfRange

/-- The answer within a number of turns, if the loop ends by then. -/
def run (links : List (List (Option Nat))) : Nat → Search → Option (Option (Nat × BackLink))
  | 0, _ => none
  | fuel + 1, s =>
    match s.turn links with
    | .next s' => run links fuel s'
    | .ended answer => some answer
    | .outOfRange => none

/-- From this state the loop ends with the answer. -/
inductive Ends (links : List (List (Option Nat))) : Search → Option (Nat × BackLink) → Prop
  | here {s : Search} {answer : Option (Nat × BackLink)} :
      s.turn links = .ended answer → Ends links s answer
  | next {s s' : Search} {answer : Option (Nat × BackLink)} :
      s.turn links = .next s' → Ends links s' answer → Ends links s answer

theorem Ends.run {links : List (List (Option Nat))} {s : Search}
    {answer : Option (Nat × BackLink)} (h : Ends links s answer) :
    ∃ turns, ∀ fuel ≥ turns, s.run links fuel = some answer := by
  induction h with
  | here hturn =>
    refine ⟨1, fun fuel hfuel => ?_⟩
    obtain ⟨fuel, rfl⟩ := Nat.exists_eq_add_of_le' hfuel
    rw [Search.run, hturn]
  | next hturn _ ih =>
    obtain ⟨turns, hrun⟩ := ih
    refine ⟨turns + 1, fun fuel hfuel => ?_⟩
    obtain ⟨fuel, rfl⟩ := Nat.exists_eq_add_of_le' hfuel
    rw [← Nat.add_assoc, Search.run, hturn]
    exact hrun _ (by omega)

/-! ## Marks -/

/-- The marks of `count` concepts, set for those that are listed. -/
def marked (count : Nat) (ids : List Nat) : List Bool :=
  (List.range count).map fun id => decide (id ∈ ids)

theorem marked_nil (count : Nat) : marked count [] = List.replicate count false := by
  simp [marked]

theorem getElem?_marked {count id : Nat} (ids : List Nat) (h : id < count) :
    (marked count ids)[id]? = some (decide (id ∈ ids)) := by
  rw [marked, List.getElem?_map, List.getElem?_range h, Option.map_some]

theorem set_marked_true (count id : Nat) (ids : List Nat) :
    (marked count ids).set id true = marked count (id :: ids) := by
  refine List.ext_getElem (by simp [marked]) fun i _ _ => ?_
  by_cases heq : id = i
  · simp [marked, heq]
  · simp [marked, List.getElem_set_of_ne heq, Ne.symm heq]

theorem set_marked_false (count : Nat) {id : Nat} {ids : List Nat} (h : id ∉ ids) :
    (marked count (id :: ids)).set id false = marked count ids := by
  refine List.ext_getElem (by simp [marked]) fun i _ _ => ?_
  by_cases heq : id = i
  · subst heq
    simp [marked, h]
  · simp [marked, List.getElem_set_of_ne heq, Ne.symm heq]

/-! ## Single turns -/

/-- The state in which the marks mirror the stack and the concepts that are done. -/
def exploring (count : Nat) (roots : List Nat) (root : Nat) (stack : List Visit)
    (done : List Nat) : Search :=
  ⟨roots, root, stack, marked count (stack.map Visit.concept), marked count done⟩

section
variable {links : List (List (Option Nat))} {count : Nat} {roots done : List Nat}
  {root current next target : Nat} {below : List Visit}

theorem getElem?_eq_some_getD (h : current < links.length) :
    links[current]? = some (links.getD current []) := by
  rw [List.getD_eq_getElem?_getD, List.getElem?_eq_getElem h, Option.getD_some]

theorem turn_skip (h : root < count) (hdone : root ∈ done) {last : Nat} :
    (exploring count (root :: roots) last [] done).turn links =
      .next (exploring count roots last [] done) := by
  simp only [turn, exploring, getElem?_marked done h, hdone, decide_true]

theorem turn_enter (h : root < count) (hdone : root ∉ done) {last : Nat} :
    (exploring count (root :: roots) last [] done).turn links =
      .next (exploring count roots root [⟨root, 0⟩] done) := by
  simp only [turn, exploring, getElem?_marked done h, hdone, decide_false, set_marked_true,
    List.map_cons, List.map_nil]

theorem turn_leave (h : current < links.length) (hpath : current ∉ below.map Visit.concept)
    (hcall : (links.getD current [])[next]? = none) :
    (exploring count roots root (⟨current, next⟩ :: below) done).turn links =
      .next (exploring count roots root below (current :: done)) := by
  simp only [turn, exploring, getElem?_eq_some_getD h, hcall, List.map_cons, set_marked_true,
    set_marked_false count hpath]

theorem turn_unlinked (h : current < links.length)
    (hcall : (links.getD current [])[next]? = some none) :
    (exploring count roots root (⟨current, next⟩ :: below) done).turn links =
      .next (exploring count roots root (⟨current, next + 1⟩ :: below) done) := by
  simp only [turn, exploring, getElem?_eq_some_getD h, hcall, List.map_cons]

/-- What a linked call comes to hangs on the marks of its target. -/
theorem turn_linked (h : current < links.length) (ht : target < count)
    (hcall : (links.getD current [])[next]? = some (some target)) :
    (exploring count roots root (⟨current, next⟩ :: below) done).turn links =
      if target ∈ current :: below.map Visit.concept then
        .ended (some (root, ⟨current, next, target⟩))
      else if target ∈ done then
        .next (exploring count roots root (⟨current, next + 1⟩ :: below) done)
      else
        .next (exploring count roots root (⟨target, 0⟩ :: ⟨current, next + 1⟩ :: below) done) := by
  simp only [turn, exploring, getElem?_eq_some_getD h, hcall, getElem?_marked _ ht, List.map_cons]
  by_cases hpath : target ∈ current :: below.map Visit.concept
  · simp only [hpath, decide_true, if_true]
  · by_cases hdone : target ∈ done
    · simp only [hpath, hdone, decide_true, decide_false, if_true, if_false]
    · simp only [hpath, hdone, decide_false, if_false, set_marked_true]

end

/-! ## The loop is the recursion -/

/-- What the loop ends with after a concept was explored: the back link that was found, or the
answer of the state in which the concept is done. -/
def Resumes (links : List (List (Option Nat))) (root : Nat) (resume : List Nat → Search)
    (answer : Option (Nat × BackLink)) : Except BackLink (List Nat) → Prop
  | .error back => answer = some (root, back)
  | .ok done => Ends links (resume done) answer

section
variable {links : List (List (Option Nat))} {count : Nat}

/-- A concept that enters the path is no longer fresh. -/
theorem mem_erase_iff_notMem_cons {fresh path : List Nat} {target : Nat} (hnodup : fresh.Nodup)
    (hfresh : ∀ id < count, id ∈ fresh ↔ id ∉ path) :
    ∀ id < count, id ∈ fresh.erase target ↔ id ∉ target :: path := fun id hid => by
  rw [hnodup.mem_erase_iff, hfresh id hid, List.mem_cons, not_or]

/-- From a visit on top of the stack the loop does what `explore` does with the calls that the
visit has left. -/
theorem ends_of_explore (hlen : links.length = count)
    (hids : ∀ source target, Calls links source target → target < count)
    {roots fresh done : List Nat} {root source position : Nat} {calls : List (Option Nat)}
    {below : List Visit} {answer : Option (Nat × BackLink)} (hsource : source < links.length)
    (hrow : (links.getD source []).drop position = calls) (hnodup : fresh.Nodup)
    (hfresh : ∀ id < count, id ∈ fresh ↔ id ∉ source :: below.map Visit.concept)
    (hpath : source ∉ below.map Visit.concept)
    (h : Resumes links root (exploring count roots root below) answer
      (explore links fresh done source position calls)) :
    Ends links (exploring count roots root (⟨source, position⟩ :: below) done) answer := by
  fun_induction explore links fresh done source position calls generalizing below with
  | case1 fresh done source position =>
    have hend : (links.getD source [])[position]? = none := by rw [← List.head?_drop, hrow]; rfl
    exact .next (turn_leave hsource hpath hend) h
  | case2 fresh done source position rest ih =>
    obtain ⟨hcall, hrest⟩ := row_of_drop hrow
    exact .next (turn_unlinked hsource hcall) (ih hsource hrest hnodup hfresh hpath h)
  | case3 fresh done source position target rest hmem hdone ih =>
    obtain ⟨hcall, hrest⟩ := row_of_drop hrow
    have ht := hids source target (List.mem_of_getElem? hcall)
    refine .next ?_ (ih hsource hrest hnodup hfresh hpath h)
    rw [turn_linked hsource ht hcall, if_neg ((hfresh target ht).1 hmem), if_pos hdone]
  | case4 fresh done source position target rest hmem hdone hlt back hex ihinner =>
    obtain ⟨hcall, -⟩ := row_of_drop hrow
    have ht := hids source target (List.mem_of_getElem? hcall)
    have hnot := (hfresh target ht).1 hmem
    have hresume : Resumes links root
        (exploring count roots root (⟨source, position + 1⟩ :: below)) answer
        (explore links (fresh.erase target) done target 0 (links.getD target [])) := by
      rw [hex]
      exact h
    refine .next ?_ (@ihinner (⟨source, position + 1⟩ :: below) (hlen ▸ ht) rfl (hnodup.erase _)
      (mem_erase_iff_notMem_cons hnodup hfresh) hnot hresume)
    rw [turn_linked hsource ht hcall, if_neg hnot, if_neg hdone]
  | case5 fresh done source position target rest hmem hdone hlt done₁ hex ihinner ihrest =>
    obtain ⟨hcall, hrest⟩ := row_of_drop hrow
    have ht := hids source target (List.mem_of_getElem? hcall)
    have hnot := (hfresh target ht).1 hmem
    -- once the target is done, its visit is gone and the path is marked as before
    have hresume : Resumes links root
        (exploring count roots root (⟨source, position + 1⟩ :: below)) answer
        (explore links (fresh.erase target) done target 0 (links.getD target [])) := by
      rw [hex]
      exact ihrest hsource hrest hnodup hfresh hpath h
    refine .next ?_ (@ihinner (⟨source, position + 1⟩ :: below) (hlen ▸ ht) rfl (hnodup.erase _)
      (mem_erase_iff_notMem_cons hnodup hfresh) hnot hresume)
    rw [turn_linked hsource ht hcall, if_neg hnot, if_neg hdone]
  | case6 fresh done source position target rest hmem =>
    obtain ⟨hcall, -⟩ := row_of_drop hrow
    have ht := hids source target (List.mem_of_getElem? hcall)
    have hon : target ∈ source :: below.map Visit.concept :=
      Decidable.not_not.1 fun hnot => hmem ((hfresh target ht).2 hnot)
    refine .here ?_
    rw [turn_linked hsource ht hcall, if_pos hon, h]

theorem ends_of_findBackLink (hlen : links.length = count)
    (hids : ∀ source target, Calls links source target → target < count)
    {roots done : List Nat} {last : Nat} (hroots : ∀ id ∈ roots, id < count) :
    Ends links (exploring count roots last [] done)
      (findBackLink links (List.range count) done roots) := by
  induction roots generalizing last done with
  | nil => exact .here rfl
  | cons root roots ih =>
    obtain ⟨hroot, hroots⟩ := List.forall_mem_cons.1 hroots
    rw [findBackLink]
    split
    case isTrue hdone => exact .next (turn_skip hroot hdone) (ih hroots)
    case isFalse hdone =>
      have hfresh : ∀ id < count, id ∈ List.range count ↔ id ∉ ([] : List Nat) := by simp
      refine .next (turn_enter hroot hdone) <|
        ends_of_explore hlen hids (hlen ▸ hroot) rfl (List.nodup_range.erase root)
          (mem_erase_iff_notMem_cons List.nodup_range hfresh) List.not_mem_nil ?_
      split
      case h_1 back hex => exact hex ▸ rfl
      case h_2 done₁ hex => exact hex ▸ ih hroots

/-- **The loop ends, within all ranges, with the first back link.** -/
theorem ends_start {d : Dictionary} (hlen : d.links.length = d.size)
    (hids : ∀ source target, Calls d.links source target → target < d.size) :
    Ends d.links (start d.size) d.backLink? := by
  have h : Ends d.links (exploring d.size (List.range d.size) 0 [] []) d.backLink? :=
    ends_of_findBackLink hlen hids fun id => List.mem_range.1
  rwa [exploring, List.map_nil, marked_nil] at h

end

end Search

/-! ## The dictionaries that are searched -/

/-- Every id of the signature index is that of a concept. -/
def InRange (d : Dictionary) : Prop := ∀ entry ∈ d.signatures, entry.2 < d.size

section
variable {d : Dictionary}

theorem Aligned.inRange (h : d.Aligned) : d.InRange := by
  intro entry hmem
  rw [h.signatures, indexOf, List.mem_map] at hmem
  obtain ⟨⟨c, id⟩, hmem, rfl⟩ := hmem
  exact (List.getElem?_eq_some_iff.1 (List.mk_mem_zipIdx_iff_getElem?.1 hmem)).1

theorem mem_setId {signatures : List (Text × Nat)} {signature : Text} {id : Nat}
    {entry : Text × Nat} (h : entry ∈ setId signatures signature id) :
    entry ∈ signatures ∨ entry = (signature, id) := by
  rw [setId] at h
  split at h
  case isTrue =>
    obtain ⟨old, hold, rfl⟩ := List.mem_map.1 h
    split
    case isTrue hsame => exact .inr (by rw [beq_iff_eq.1 hsame])
    case isFalse => exact .inl hold
  case isFalse => simpa using h

/-- A concept that is pushed gets the id of its place, also if its signature is in use. -/
theorem InRange.push (h : d.InRange) (c : Concept) : (d.push c).InRange := by
  intro entry hmem
  have hsize : (d.push c).size = d.size + 1 := by simp [Dictionary.push, size]
  rw [hsize]
  obtain hold | rfl := mem_setId hmem
  · exact Nat.lt_succ_of_lt (h entry hold)
  · exact Nat.lt_succ_self _

theorem InRange.grown (h : d.InRange) (batch : List Concept) : (d.grown batch).InRange := by
  suffices (batch.foldl Dictionary.push d).InRange from this
  induction batch generalizing d with
  | nil => exact h
  | cons c batch ih => exact ih (h.push c)

theorem InRange.idOf?_lt (h : d.InRange) {signature : Text} {id : Nat}
    (hid : d.idOf? signature = some id) : id < d.size := by
  obtain ⟨entry, hfind, rfl⟩ := Option.map_eq_some_iff.1 hid
  exact h entry (List.mem_of_find?_eq_some hfind)

/-- A link belongs to a step of a concept and leads to the concept that the step's value names. -/
theorem exists_of_link (hlinks : d.links = d.concepts.map d.linksOf)
    {source position target : Nat}
    (h : (d.links.getD source [])[position]? = some (some target)) :
    ∃ c s, d.concepts[source]? = some c ∧ c.steps[position]? = some s ∧
      d.idOf? s.value = some target := by
  rw [hlinks, List.getD_eq_getElem?_getD, List.getElem?_map] at h
  cases hc : d.concepts[source]? with
  | none => simp [hc] at h
  | some c =>
    simp only [hc, Option.map_some, Option.getD_some, linksOf, List.getElem?_map,
      Option.map_eq_some_iff] at h
    obtain ⟨s, hs, hid⟩ := h
    exact ⟨c, s, rfl, hs, hid⟩

theorem InRange.lt_of_calls (h : d.InRange) (hlinks : d.links = d.concepts.map d.linksOf)
    (source target : Nat) (hc : Calls d.links source target) : target < d.size := by
  obtain ⟨position, hlink⟩ := List.mem_iff_getElem?.1 hc
  obtain ⟨-, s, -, -, hid⟩ := exists_of_link hlinks hlink
  exact h.idOf?_lt hid

end

/-- The diagnostic of a circle whose concepts and step are there. -/
theorem circleDiagnostic_eq {d : Dictionary} {root : Nat} {back : BackLink}
    {first source target : Concept} {step : Step} (hfirst : d.concepts[root]? = some first)
    (hsource : d.concepts[back.source]? = some source)
    (htarget : d.concepts[back.target]? = some target)
    (hstep : source.steps[back.position]? = some step) :
    d.circleDiagnostic root back =
      (Problem.circle ⟨first.heading.lineText, source.fileName, source.heading.lineText,
        target.fileName, step.lineText⟩).diagnostic.onLine step.lineNo step.lineText := by
  simp only [circleDiagnostic, circle?, hfirst, hsource, htarget, hstep, Option.bind_eq_bind,
    Option.bind_some, Option.pure_def]

/-- **The search for circles ends and is exact**, whatever concepts a dictionary holds. The loop
ends with the first back link; there is none exactly if the links form no circle; and the
diagnostic of a back link is on a step of a concept that the link of the step reaches again, and
names first a concept that reaches both. -/
theorem search_ends_exact (history : List (List Concept)) (batch : List Concept) :
    let d := (after history).grown batch
    (∃ turns, ∀ fuel ≥ turns, (Search.start d.size).run d.links fuel = some d.backLink?) ∧
    (d.backLink? = none ↔ Acyclic d.links) ∧
    ∀ root back, d.backLink? = some (root, back) →
      ∃ first source target step,
        d.concepts[root]? = some first ∧ d.concepts[back.source]? = some source ∧
        d.concepts[back.target]? = some target ∧ source.steps[back.position]? = some step ∧
        d.idOf? step.value = some back.target ∧
        d.circleDiagnostic root back =
          (Problem.circle
            { rootHeading := first.heading.lineText
              fileName := source.fileName
              heading := source.heading.lineText
              targetFile := target.fileName
              stepText := step.lineText }).diagnostic.onLine step.lineNo step.lineText ∧
        Calls d.links back.source back.target ∧
        ReflTransGen (Calls d.links) back.target back.source ∧
        ReflTransGen (Calls d.links) root back.source ∧
        ReflTransGen (Calls d.links) root back.target := by
  intro d
  have hlinks : d.links = d.concepts.map d.linksOf := rfl
  have hlen : d.links.length = d.size := by rw [hlinks, List.length_map, size]
  have hrange : d.InRange := (aligned_after history).inRange.grown batch
  have hids := hrange.lt_of_calls hlinks
  refine ⟨(Search.ends_start hlen hids).run, ⟨acyclic_of_backLink? hlen, backLink?_of_acyclic hids⟩,
    fun root back hback => ?_⟩
  obtain ⟨hroot, hclose⟩ := closes_of_backLink? hids hback
  obtain ⟨source, step, hsource, hstep, hid⟩ := exists_of_link hlinks hclose.linked
  have hconcept {id : Nat} (h : id < d.size) : ∃ c, d.concepts[id]? = some c :=
    ⟨_, List.getElem?_eq_getElem h⟩
  obtain ⟨first, hfirst⟩ := hconcept hroot
  obtain ⟨target, htarget⟩ := hconcept (hrange.idOf?_lt hid)
  have hcircle := circleDiagnostic_eq hfirst hsource htarget hstep
  exact ⟨first, source, target, step, hfirst, hsource, htarget, hstep, hid, hcircle, hclose.calls,
    hclose.returns, hclose.reached, hclose.reached.tail hclose.calls⟩

/-- A concept whose steps have these values. -/
def calling (signature : String) (calls : List String) : Concept where
  fileName := "house.cpt".toList
  heading := ⟨1, signature.toList, signature.toList, [], false⟩
  formals := .empty
  items := calls.map fun call => .step ⟨2, call.toList, call.toList, [], false⟩
  preComments := []

/-- The first concept is not on the circle that the search finds from it. -/
def cleaning : List Concept :=
  [calling "tidy" ["sweep"], calling "sweep" ["take the broom", "mop"], calling "mop" ["sweep"]]

theorem search_ends_exact_cleaning :
    let d := (after []).grown cleaning
    d.backLink? = some (0, ⟨2, 0, 1⟩) ∧
    (∃ turns, ∀ fuel ≥ turns,
      (Search.start d.size).run d.links fuel = some (some (0, ⟨2, 0, 1⟩))) ∧
    ¬ Acyclic d.links ∧
    ReflTransGen (Calls d.links) 1 2 ∧
    (d.circleDiagnostic 0 ⟨2, 0, 1⟩).message =
      "Circular reference found in concept: \"tidy\"\nhouse.cpt: The concept \"mop\" references " ++
        "a higher concept -> house.cpt: \"sweep\"" := by
  intro d
  have hback : d.backLink? = some (0, ⟨2, 0, 1⟩) := by
    have hlinks : d.links = [[some 1], [none, some 2], [some 1]] := rfl
    have hsize : d.size = 3 := rfl
    rw [backLink?, hlinks, hsize]
    cbv
  obtain ⟨hrun, hnone, hreport⟩ := search_ends_exact [] cleaning
  obtain ⟨-, -, -, -, -, -, -, -, -, -, -, hreturns, -⟩ := hreport 0 ⟨2, 0, 1⟩ hback
  refine ⟨hback, hback ▸ hrun, fun h => ?_, hreturns, by decide +kernel⟩
  rw [hnone.2 h] at hback
  cases hback

end ScenarioBook.Dictionary
