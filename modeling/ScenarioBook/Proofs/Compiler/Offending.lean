import ScenarioBook.Proofs.Compiler.Pointing
import ScenarioBook.Proofs.Compiler.Refusal
import ScenarioBook.Proofs.Concept.Placed
import ScenarioBook.Proofs.Dictionary.Search

/-!
# Failures and the lines they are about

A rejected source comes with its text and its path, so that the lines of its diagnostics can be
shown (`Diagnostic.RefersTo`).

* What a source cannot be read for, and a signature that is in use, is on a line of that source,
  and so is a circle that a step of the source closes (`refersTo_iff_of_refuses`).
* The search for circles starts from the oldest concept, so the step that closes one can belong to
  a concept that was there before (`Dictionary.ClosesIn`). Every concept that is there was read from
  a source given before (`sourced_serveAll`), so the diagnostic is on a line of that source, and its
  message gives the name of that file. The failure has the source of the new concepts all the same.

`failures_name_lines` puts these together for every run: in the second case, and in no other, the
line can be missing from the source that comes with the failure.
-/

set_option autoImplicit false

namespace ScenarioBook

/-- The diagnostic is on no line, or on one of the source and shows a part of it. An empty source
has an empty line one. -/
def Diagnostic.RefersTo (d : Diagnostic) (source : Text) : Prop :=
  ∀ n, d.lineNo = some n → ∃ text, d.lineText = some text ∧
    ((∃ l ∈ Line.ofSource source, l.no = n ∧ text <:+: l.text) ∨ source = [] ∧ n = 1 ∧ text = [])

theorem Line.eq_nil_of_ofSource {source : Text} (h : ofSource source = []) : source = [] := by
  have hlength : source.rawLines.length = 0 := by
    rw [← length_place 1 0, ← ofSource, h]
    rfl
  rw [← Text.flatten_rawLines source, List.length_eq_zero_iff.1 hlength]
  rfl

section
variable {source : Text}

theorem Diagnostic.PointsInto.refersTo {d : Diagnostic} (h : d.PointsInto source) :
    d.RefersTo source := by
  intro n hn
  cases h with
  | @line l text hl hno htext hpart =>
    exact ⟨text, htext, .inl ⟨l, hl, Option.some.inj (hno.symm.trans hn), hpart⟩⟩
  | empty hnone hno htext =>
    have hone := (Option.some.inj (hno.symm.trans hn)).symm
    exact ⟨[], htext, .inr ⟨Line.eq_nil_of_ofSource hnone, hone, rfl⟩⟩

theorem Step.StandsIn.refersTo {s : Step} (h : s.StandsIn source) (d : Diagnostic) :
    (d.onLine s.lineNo s.lineText).RefersTo source := by
  intro n hn
  obtain ⟨l, hl, hno, htext⟩ := h
  exact ⟨s.lineText, rfl, .inl ⟨l, hl, hno.symm.trans (Option.some.inj hn), htext⟩⟩

theorem Step.standsIn_of_refersTo {s : Step} {d : Diagnostic} (hne : source ≠ [])
    (h : (d.onLine s.lineNo s.lineText).RefersTo source) : s.StandsIn source := by
  obtain ⟨text, htext, ⟨l, hl, hno, hpart⟩ | ⟨hnil, -⟩⟩ := h _ rfl
  · exact ⟨l, hl, hno.symm, Option.some.inj htext ▸ hpart⟩
  · exact absurd hnil hne

end

/-! ## Circles -/

namespace Dictionary

/-- With the batch in place the first circle that is found is closed by a step of a concept that was
there before. -/
def ClosesIn (d : Dictionary) (batch : List Concept) (older : Concept) (step : Step) : Prop :=
  firstDuplicate (d.signatures.map (·.1)) batch = none ∧
    ∃ root back, (d.grown batch).backLink? = some (root, back) ∧
      d.concepts[back.source]? = some older ∧ older.steps[back.position]? = some step

variable {d : Dictionary}

theorem ClosesIn.unique {batch : List Concept} {older older' : Concept} {step step' : Step}
    (h : d.ClosesIn batch older step) (h' : d.ClosesIn batch older' step') :
    older = older' ∧ step = step' := by
  obtain ⟨-, root, back, hback, holder, hstep⟩ := h
  obtain ⟨-, root', back', hback', holder', hstep'⟩ := h'
  cases hback.symm.trans hback'
  cases holder.symm.trans holder'
  exact ⟨rfl, Option.some.inj (hstep.symm.trans hstep')⟩

/-- The older concept is one of the dictionary, and the step is one of its steps. -/
theorem ClosesIn.mem {batch : List Concept} {older : Concept} {step : Step}
    (h : d.ClosesIn batch older step) : older ∈ d.concepts ∧ step ∈ older.steps := by
  obtain ⟨-, root, back, -, holder, hstep⟩ := h
  exact ⟨List.mem_of_getElem? holder, List.mem_of_getElem? hstep⟩

/-- A circle is described by the concept and the step that close it. -/
theorem Aligned.exists_closing (h : d.Aligned) {batch : List Concept} {root : Nat} {back : BackLink}
    (hback : (d.grown batch).backLink? = some (root, back)) :
    ∃ source step circle, (d.grown batch).concepts[back.source]? = some source ∧
      source.steps[back.position]? = some step ∧ circle.fileName = source.fileName ∧
      circle.heading = source.heading.lineText ∧
      (d.grown batch).circleDiagnostic root back =
        (Problem.circle circle).diagnostic.onLine step.lineNo step.lineText := by
  have hlinks : (d.grown batch).links = (d.grown batch).concepts.map (d.grown batch).linksOf := rfl
  have hrange := h.inRange.grown batch
  obtain ⟨hroot, hclose⟩ := closes_of_backLink? (hrange.lt_of_calls hlinks) hback
  obtain ⟨source, step, hsource, hstep, hid⟩ := exists_of_link hlinks hclose.linked
  have hfirst := List.getElem?_eq_getElem (l := (d.grown batch).concepts) hroot
  have htarget := List.getElem?_eq_getElem (l := (d.grown batch).concepts) (hrange.idOf?_lt hid)
  exact ⟨source, step, _, hsource, hstep, rfl, rfl,
    circleDiagnostic_eq hfirst hsource htarget hstep⟩

/-- Without new concepts there is no circle. -/
theorem Aligned.not_closesIn_nil (h : d.Aligned) (older : Concept) (step : Step) :
    ¬ d.ClosesIn [] older step := by
  rintro ⟨-, root, back, hback, -⟩
  have hgrown : d.grown [] = d := by
    have hlinks := h.links
    cases d
    simp only [grown, relink, List.foldl_nil, Dictionary.mk.injEq, true_and]
    exact hlinks.symm
  rw [hgrown, backLink?_of_acyclic (fun _ _ hc => (h.lt_of_calls hc).2) h.acyclic] at hback
  cases hback

theorem firstDuplicate_mem {used : List Text} {batch : List Concept} {c : Concept}
    (h : firstDuplicate used batch = some c) : c ∈ batch := by
  induction batch generalizing used with
  | nil => cases h
  | cons c' batch ih =>
    rw [firstDuplicate] at h
    split at h
    case isTrue => exact Option.some.inj h ▸ List.mem_cons_self
    case isFalse => exact List.mem_cons_of_mem _ (ih h)

/-- Why concepts are refused. -/
inductive Refuses (d : Dictionary) (files : FileSource) (source fileName : Text) : Rejection → Prop
  /-- The source cannot be read. -/
  | unread {r : Rejection} (hparse : Concept.parse source fileName files = .error r) :
      Refuses d files source fileName r
  /-- A heading of the source repeats a signature, or one of its steps closes a circle. -/
  | own {parsed : Parsed (List Concept)} {s : Step} {p : Problem}
      (hparse : Concept.parse source fileName files = .ok parsed) (hs : s.StandsIn source)
      (hown : ∀ older step, ¬ d.ClosesIn parsed.document older step) :
      Refuses d files source fileName ⟨[p.diagnostic.onLine s.lineNo s.lineText]⟩
  /-- The source closes a circle at a step of a concept that was there before. -/
  | older {parsed : Parsed (List Concept)} {older : Concept} {step : Step} {circle : Circle}
      (hparse : Concept.parse source fileName files = .ok parsed)
      (hcloses : d.ClosesIn parsed.document older step)
      (hfile : circle.fileName = older.fileName)
      (hheading : circle.heading = older.heading.lineText) :
      Refuses d files source fileName
        ⟨[(Problem.circle circle).diagnostic.onLine step.lineNo step.lineText]⟩

/-- A circle that is closed in an older concept is all that is reported. -/
theorem Refuses.of_closesIn {files : FileSource} {source fileName : Text} {r : Rejection}
    (h : d.Refuses files source fileName r) {parsed : Parsed (List Concept)}
    (hparse : Concept.parse source fileName files = .ok parsed) {older : Concept} {step : Step}
    (hcloses : d.ClosesIn parsed.document older step) :
    ∃ circle, circle.fileName = older.fileName ∧ circle.heading = older.heading.lineText ∧
      r = ⟨[(Problem.circle circle).diagnostic.onLine step.lineNo step.lineText]⟩ := by
  cases h with
  | unread hnone => cases hnone.symm.trans hparse
  | own hsome hs hown =>
    cases hsome.symm.trans hparse
    exact absurd hcloses (hown older step)
  | older hsome hcloses' hfile hheading =>
    cases hsome.symm.trans hparse
    obtain ⟨rfl, rfl⟩ := hcloses'.unique hcloses
    exact ⟨_, hfile, hheading, rfl⟩

theorem Aligned.refuses (h : d.Aligned) {files : FileSource} {source fileName : Text}
    {parsed : Parsed (List Concept)} (hparse : Concept.parse source fileName files = .ok parsed)
    {r : Rejection} (hr : (d.add parsed.document).2 = some r) :
    d.Refuses files source fileName r := by
  have hstands := Concept.standsIn_of_parse hparse
  rw [add_eq] at hr
  split at hr
  case h_1 c hdup =>
    cases hr
    refine .own hparse (hstands c (firstDuplicate_mem hdup)).heading fun older step hcloses => ?_
    cases hdup.symm.trans hcloses.1
  case h_2 hdup =>
    split at hr
    case h_2 => cases hr
    case h_1 root back hback =>
      cases hr
      obtain ⟨source', step, circle, hsource, hstep, hfile, hheading, hdiag⟩ :=
        h.exists_closing hback
      rw [h.concepts_grown hdup] at hsource
      rw [hdiag]
      by_cases hold : back.source < d.size
      · rw [List.getElem?_append_left hold] at hsource
        exact .older hparse ⟨hdup, root, back, hback, hsource, hstep⟩ hfile hheading
      · rw [List.getElem?_append_right (Nat.le_of_not_lt hold)] at hsource
        have hmem := List.mem_of_getElem? hsource
        refine .own hparse ((hstands source' hmem).steps step (List.mem_of_getElem? hstep)) ?_
        rintro older step' ⟨-, root', back', hback', hsource', -⟩
        cases hback.symm.trans hback'
        exact hold (List.getElem?_eq_some_iff.1 hsource').1

end Dictionary

/-! ## One request -/

namespace Compiler

section
variable {c : Compiler} {files : FileSource} {source fileName : Text}

theorem refuses_of_addConcepts (h : c.dictionary.Aligned) {failure : Failure}
    (hf : (c.addConcepts files source fileName).2 = .error failure) :
    ∃ r, failure = .rejected r source fileName ∧ c.dictionary.Refuses files source fileName r := by
  unfold addConcepts at hf
  split at hf
  case h_1 r hparse =>
    cases hf
    exact ⟨r, rfl, .unread hparse⟩
  case h_2 parsed hparse =>
    cases hr : (c.dictionary.add parsed.document).2 with
    | none => simp [hr] at hf
    | some r =>
      simp only [hr, Except.error.injEq] at hf
      exact ⟨r, hf.symm, h.refuses hparse hr⟩

theorem refersTo_of_parse_error {r : Rejection}
    (h : Concept.parse source fileName files = .error r) :
    ∀ d ∈ r.diagnostics, d.RefersTo source := fun d hd =>
  (reported_parse_concepts source fileName files d (by rwa [h])).refersTo

/-- What a document is rejected with is on lines of its source. -/
theorem rejected_of_parse {failure : Failure} (h : c.parse files source fileName = .error failure) :
    ∃ r, failure = .rejected r source fileName ∧ ∀ d ∈ r.diagnostics, d.RefersTo source := by
  unfold parse at h
  split at h
  case h_2 => cases h
  case h_1 r hparse =>
    cases h
    exact ⟨r, rfl, fun d hd => (reported_parse_document source fileName c.dictionary files d
      (by rwa [hparse])).refersTo⟩

/-- An empty source has no concepts. -/
theorem parse_nil (fileName : Text) (files : FileSource) :
    Concept.parse [] fileName files = .ok ⟨[], []⟩ := by
  have hrun : Lexer.start.run (Line.ofSource []) = .start := by
    rw [show Line.ofSource [] = [] from rfl, Lexer.run]
  have htok : tokenize [] = .ok [] := by
    rw [tokenize, hrun]
    rfl
  rw [Concept.parse, htok]
  rfl

/-- A source that closes a circle is not empty. -/
theorem ne_nil_of_closesIn (h : c.dictionary.Aligned) {parsed : Parsed (List Concept)}
    (hparse : Concept.parse source fileName files = .ok parsed) {older : Concept} {step : Step}
    (hcloses : c.dictionary.ClosesIn parsed.document older step) : source ≠ [] := by
  rintro rfl
  cases (parse_nil fileName files).symm.trans hparse
  exact h.not_closesIn_nil older step hcloses

/-- **What refused concepts are reported for is on lines of their source**, unless they close a
circle in a concept that was there before, and then only if the line is one of their source, too. -/
theorem refersTo_iff_of_refuses (h : c.dictionary.Aligned) {r : Rejection}
    (hrefuses : c.dictionary.Refuses files source fileName r) :
    (∀ d ∈ r.diagnostics, d.RefersTo source) ↔
      ∀ parsed older step, Concept.parse source fileName files = .ok parsed →
        c.dictionary.ClosesIn parsed.document older step → step.StandsIn source := by
  cases hrefuses with
  | unread hparse =>
    refine iff_of_true (refersTo_of_parse_error hparse) fun parsed older step hparse' _ => ?_
    cases hparse.symm.trans hparse'
  | own hparse hs hown =>
    refine iff_of_true (List.forall_mem_singleton.2 (hs.refersTo _))
      fun parsed older step hparse' hcloses => ?_
    cases hparse.symm.trans hparse'
    exact absurd hcloses (hown older step)
  | @older parsed older step circle hparse hcloses =>
    have hne := ne_nil_of_closesIn h hparse hcloses
    rw [List.forall_mem_singleton]
    refine ⟨fun hrefers parsed' older' step' hparse' hcloses' => ?_, fun hall =>
      (hall parsed older step hparse hcloses).refersTo _⟩
    cases hparse.symm.trans hparse'
    obtain ⟨rfl, rfl⟩ := hcloses.unique hcloses'
    exact Step.standsIn_of_refersTo hne hrefers

/-! ## A run -/

/-- The concept was read from a source that the run was given. -/
def Sourced (requests : List Request) (concept : Concept) : Prop :=
  ∃ files source parsed, Request.addConcepts files source concept.fileName ∈ requests ∧
    Concept.parse source concept.fileName files = .ok parsed ∧ concept ∈ parsed.document

/-- One request brings no concepts but those of its source. -/
theorem sourced_serve (h : c.dictionary.Aligned) (request : Request) {concept : Concept}
    (hc : concept ∈ (c.serve request).1.dictionary.concepts) :
    concept ∈ c.dictionary.concepts ∨ Sourced [request] concept := by
  cases request with
  | addConcepts files source fileName =>
    simp only [serve, addConcepts] at hc
    split at hc
    case h_1 => exact .inl hc
    case h_2 parsed hparse =>
      obtain ⟨diagnostic, hadd, -⟩ | ⟨hdup, -, hadd⟩ := h.add_cases parsed.document
      · rw [hadd] at hc
        exact .inl hc
      · rw [hadd, h.concepts_grown hdup, List.mem_append] at hc
        refine hc.imp_right fun hc => ?_
        obtain rfl := (Concept.standsIn_of_parse hparse concept hc).named
        exact ⟨files, source, parsed, List.mem_singleton_self _, hparse, hc⟩
  | _ => exact .inl hc

/-- **Whatever is known after a run was read from a source of the run**, or known before. -/
theorem sourced_serveAll (h : c.dictionary.Aligned) (requests : List Request) :
    (c.serveAll requests).1.dictionary.Aligned ∧
      ∀ concept ∈ (c.serveAll requests).1.dictionary.concepts,
        concept ∈ c.dictionary.concepts ∨ Sourced requests concept := by
  induction requests generalizing c with
  | nil => exact ⟨h, fun _ hc => .inl hc⟩
  | cons request requests ih =>
    obtain ⟨haligned, hall⟩ := ih (aligned_serve h request)
    refine ⟨haligned, fun concept hc => ?_⟩
    have hlater : ∀ {given : List Request}, (∀ q ∈ given, q ∈ request :: requests) →
        Sourced given concept → Sourced (request :: requests) concept :=
      fun hsub ⟨files, source, parsed, hmem, hrest⟩ => ⟨files, source, parsed, hsub _ hmem, hrest⟩
    rcases hall concept hc with hc | hc
    · exact (sourced_serve h request hc).imp_right (hlater (by simp))
    · exact .inr (hlater (fun q hq => List.mem_cons_of_mem _ hq) hc)

end

/-- The compiler after a run. -/
def after (settings : Settings) (requests : List Request) : Compiler :=
  (({ settings := settings } : Compiler).serveAll requests).1

/-- **Failures name lines of their source**, after every run, with one exception. A document is
rejected with diagnostics on lines of its source. So are concepts, unless they close a circle at a
step of a concept that was there before, on a line that is not in the new source. Then the only
diagnostic is on a line of the source that the older concept was read from, and it gives that
concept and its file, while the failure comes with the new source. -/
theorem failures_name_lines (settings : Settings) (earlier : List Request) (files : FileSource)
    (source fileName : Text) :
    let c := after settings earlier
    (∀ failure, c.parse files source fileName = .error failure →
      ∃ r, failure = .rejected r source fileName ∧ ∀ d ∈ r.diagnostics, d.RefersTo source) ∧
    ∀ failure, (c.addConcepts files source fileName).2 = .error failure →
      ∃ r, failure = .rejected r source fileName ∧
        ((∀ d ∈ r.diagnostics, d.RefersTo source) ↔
          ∀ parsed older step, Concept.parse source fileName files = .ok parsed →
            c.dictionary.ClosesIn parsed.document older step → step.StandsIn source) ∧
        ∀ parsed older step, Concept.parse source fileName files = .ok parsed →
          c.dictionary.ClosesIn parsed.document older step →
          ∃ files' source' parsed' circle d,
            Request.addConcepts files' source' older.fileName ∈ earlier ∧
            Concept.parse source' older.fileName files' = .ok parsed' ∧
            older ∈ parsed'.document ∧ circle.fileName = older.fileName ∧
            circle.heading = older.heading.lineText ∧ r.diagnostics = [d] ∧
            d.message = (Problem.circle circle).message ∧ d.RefersTo source' := by
  intro c
  obtain ⟨haligned, hsourced⟩ :=
    sourced_serveAll (c := { settings := settings }) Dictionary.aligned_empty earlier
  refine ⟨fun failure hf => rejected_of_parse hf, fun failure hf => ?_⟩
  obtain ⟨r, rfl, hrefuses⟩ := refuses_of_addConcepts haligned hf
  refine ⟨r, rfl, refersTo_iff_of_refuses haligned hrefuses,
    fun parsed older step hparse hcloses => ?_⟩
  obtain ⟨holder, hstep⟩ := hcloses.mem
  obtain ⟨files', source', parsed', hgiven, hparse', hmem⟩ :=
    (hsourced older holder).resolve_left List.not_mem_nil
  have hstands := (Concept.standsIn_of_parse hparse' older hmem).steps step hstep
  obtain ⟨circle, hfile, hheading, rfl⟩ := hrefuses.of_closesIn hparse hcloses
  exact ⟨files', source', parsed', circle, _, hgiven, hparse', hmem, hfile, hheading, rfl, rfl,
    hstands.refersTo _⟩

/-! ## Two files that close a circle -/

/-- Two concepts that call one which is not there. -/
def houseSource : Text := "# tidy\n* mop\n# sweep\n* mop\n".toList

/-- The concept that is missing, calling one of them. -/
def floorSource : Text := "# mop\n* sweep\n".toList

/-- A concept with one step, which is on the line below the heading. -/
def callingOnce (fileName : String) (lineNo : Nat) (signature call : String) : Concept where
  fileName := fileName.toList
  heading := ⟨lineNo, signature.toList, signature.toList, [], false⟩
  formals := .empty
  items := [.step ⟨lineNo + 1, call.toList, call.toList, [], false⟩]
  preComments := []

def house : List Concept :=
  [callingOnce "house.cpt" 1 "tidy" "mop", callingOnce "house.cpt" 3 "sweep" "mop"]

def floor : List Concept := [callingOnce "floor.cpt" 1 "mop" "sweep"]

def houseRequest : Request := .addConcepts (.ofEntries []) houseSource "house.cpt".toList

/-- The dictionary with the concepts of the first file. -/
def houseDictionary : Dictionary :=
  ⟨house, [("tidy".toList, 0), ("sweep".toList, 1)], [[none], [none]]⟩

theorem parse_eq_ok {source fileName : Text} {files : FileSource} {document : List Concept}
    (h : (Concept.parse source fileName files).toOption.map (fun p => (p.document, p.warnings)) =
      some (document, [])) : Concept.parse source fileName files = .ok ⟨document, []⟩ := by
  obtain ⟨parsed, hparse, h⟩ := exists_ok_of_map h
  obtain ⟨rfl, hwarnings⟩ := Prod.mk.inj h
  rw [hparse, ← hwarnings]

theorem parse_house :
    Concept.parse houseSource "house.cpt".toList (.ofEntries []) = .ok ⟨house, []⟩ :=
  parse_eq_ok (by decide +kernel)

theorem parse_floor :
    Concept.parse floorSource "floor.cpt".toList (.ofEntries []) = .ok ⟨floor, []⟩ :=
  parse_eq_ok (by decide +kernel)

theorem dictionary_house : (after {} [houseRequest]).dictionary = houseDictionary := by
  have hdup : Dictionary.firstDuplicate [] house = none := rfl
  have hgrown : Dictionary.empty.grown house = houseDictionary := rfl
  have hback : houseDictionary.backLink? = none := by
    have hlinks : houseDictionary.links = [[none], [none]] := rfl
    rw [Dictionary.backLink?, hlinks, show houseDictionary.size = 2 from rfl]
    cbv
  have hadd : Dictionary.empty.add house = (houseDictionary, none) := by
    rw [Dictionary.add_eq, show Dictionary.empty.signatures.map (·.1) = [] from rfl, hdup, hgrown,
      hback]
  simp only [after, houseRequest, serveAll, serve, addConcepts, parse_house, hadd]

/-- The circle is found from the first concept and closed by the second. -/
theorem backLink_floor : (houseDictionary.grown floor).backLink? = some (0, ⟨1, 0, 2⟩) := by
  have hlinks : (houseDictionary.grown floor).links = [[some 2], [some 2], [some 1]] := rfl
  have hsize : (houseDictionary.grown floor).size = 3 := rfl
  rw [Dictionary.backLink?, hlinks, hsize]
  cbv

theorem closesIn_floor :
    houseDictionary.ClosesIn floor (callingOnce "house.cpt" 3 "sweep" "mop")
      ⟨4, "mop".toList, "mop".toList, [], false⟩ :=
  ⟨rfl, 0, ⟨1, 0, 2⟩, backLink_floor, rfl, rfl⟩

/-- The new source has no fourth line. -/
theorem not_standsIn_floor {s : Step} (h : s.lineNo = 4) : ¬ s.StandsIn floorSource := by
  rintro ⟨l, hl, hno, -⟩
  have hlast : ∀ l ∈ Line.ofSource floorSource, l.no ≠ 4 := by decide
  exact hlast l hl (hno.symm.trans h)

theorem refusal_floor :
    ((after {} [houseRequest]).addConcepts (.ofEntries []) floorSource "floor.cpt".toList).2 =
      .error (.rejected ⟨[(Problem.circle ⟨"tidy".toList, "house.cpt".toList, "sweep".toList,
        "floor.cpt".toList, "mop".toList⟩).diagnostic.onLine 4 "mop".toList]⟩
        floorSource "floor.cpt".toList) := by
  have hdup := closesIn_floor.1
  have hdiag : (houseDictionary.grown floor).circleDiagnostic 0 ⟨1, 0, 2⟩ =
      (Problem.circle ⟨"tidy".toList, "house.cpt".toList, "sweep".toList,
        "floor.cpt".toList, "mop".toList⟩).diagnostic.onLine 4 "mop".toList := rfl
  simp only [addConcepts, dictionary_house, parse_floor, Dictionary.add_eq, hdup, backLink_floor,
    hdiag]

/-- The circle of the two files is on line four of the first, and the failure comes with the second.
The first file given twice repeats a signature on a line of its own, and a document is rejected on
one. -/
theorem failures_name_lines_house :
    (∃ r, ((after {} [houseRequest]).addConcepts (.ofEntries []) floorSource "floor.cpt".toList).2 =
        .error (.rejected r floorSource "floor.cpt".toList) ∧
      (¬ ∀ d ∈ r.diagnostics, d.RefersTo floorSource) ∧
      ∀ d ∈ r.diagnostics, d.RefersTo houseSource) ∧
    (∃ r, ((after {} [houseRequest]).addConcepts (.ofEntries []) houseSource "house.cpt".toList).2 =
        .error (.rejected r houseSource "house.cpt".toList) ∧
      ∀ d ∈ r.diagnostics, d.RefersTo houseSource) ∧
    ∃ r, (after {} [houseRequest]).parse (.ofEntries []) partySource "party.spec".toList =
        .error (.rejected r partySource "party.spec".toList) ∧
      ∀ d ∈ r.diagnostics, d.RefersTo partySource := by
  have hnames := failures_name_lines {} [houseRequest] (.ofEntries [])
  refine ⟨?_, ?_, ?_⟩
  · obtain ⟨r, hr, hiff, hcircle⟩ := (hnames floorSource "floor.cpt".toList).2 _ refusal_floor
    have hcloses := dictionary_house ▸ closesIn_floor
    refine ⟨r, refusal_floor.trans (congrArg _ hr), fun hall =>
      not_standsIn_floor rfl (hiff.1 hall _ _ _ parse_floor hcloses), ?_⟩
    obtain ⟨files, source, -, -, d, hgiven, -, -, -, -, hd, -, hrefers⟩ :=
      hcircle _ _ _ parse_floor hcloses
    cases List.mem_singleton.1 hgiven
    rw [hd]
    exact List.forall_mem_singleton.2 hrefers
  · have hdup : Dictionary.firstDuplicate (houseDictionary.signatures.map (·.1)) house =
        some (callingOnce "house.cpt" 1 "tidy" "mop") := rfl
    have hfails : ((after {} [houseRequest]).addConcepts (.ofEntries []) houseSource
        "house.cpt".toList).2 = .error (.rejected
          ⟨[Dictionary.duplicateDiagnostic (callingOnce "house.cpt" 1 "tidy" "mop")]⟩
          houseSource "house.cpt".toList) := by
      simp only [addConcepts, dictionary_house, parse_house, Dictionary.add_eq, hdup]
    obtain ⟨r, hr, hiff, -⟩ := (hnames houseSource "house.cpt".toList).2 _ hfails
    refine ⟨r, hfails.trans (congrArg _ hr), hiff.2 fun parsed older step hparse hcloses => ?_⟩
    cases parse_house.symm.trans hparse
    cases hdup.symm.trans (dictionary_house ▸ hcloses.1)
  · have hfails : (Document.parse partySource "party.spec".toList houseDictionary
        (.ofEntries [])).isOk = false := by decide +kernel
    cases hparse : Document.parse partySource "party.spec".toList houseDictionary
        (.ofEntries []) with
    | ok parsed => rw [hparse] at hfails; cases hfails
    | error r =>
      have hf : (after {} [houseRequest]).parse (.ofEntries []) partySource "party.spec".toList =
          .error (.rejected r partySource "party.spec".toList) := by
        rw [parse, dictionary_house, hparse]
      obtain ⟨r', hr, hrefers⟩ := (hnames partySource "party.spec".toList).1 _ hf
      exact ⟨r', hf.trans (congrArg _ hr), hrefers⟩

/-- The new source has two lines, but what it is refused for is on line four. -/
theorem not_failures_name_lines_floor :
    (∃ d, ((after {} [houseRequest]).addConcepts (.ofEntries []) floorSource "floor.cpt".toList).2 =
        .error (.rejected ⟨[d]⟩ floorSource "floor.cpt".toList) ∧
      d.lineNo = some 4 ∧ (Line.ofSource floorSource).length = 2) ∧
    ¬ ∀ (settings : Settings) (earlier : List Request) (files : FileSource)
        (source fileName : Text) (r : Rejection) (src path : Text),
      ((after settings earlier).addConcepts files source fileName).2 =
          .error (.rejected r src path) →
        ∀ d ∈ r.diagnostics, d.RefersTo src := by
  refine ⟨⟨_, refusal_floor, rfl, rfl⟩, fun h => ?_⟩
  have hrefers := h {} [houseRequest] _ _ _ _ _ _ refusal_floor _ (List.mem_singleton_self _)
  have hne : floorSource ≠ [] := by decide
  exact not_standsIn_floor (s := ⟨4, "mop".toList, "mop".toList, [], false⟩) rfl
    (Step.standsIn_of_refersTo hne hrefers)

end Compiler

end ScenarioBook
