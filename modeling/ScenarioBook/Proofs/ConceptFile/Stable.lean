import ScenarioBook.Proofs.ConceptFile.RoundTrip

/-!
# Layouts of concept files are stable

What is written for the concepts of an accepted source is accepted again, with the same signatures
and formal parameters, and is written the same way again, if each concept is one that its lines give
back (`Layout.concepts_stable_of_fit`). A concept whose heading has a brace in its text is not like
this: the brace is written without its backslash, and the heading is refused
(`Layout.not_concepts_stable_of_brace`).
-/

set_option autoImplicit false

namespace ScenarioBook

section
variable {source fileName : Text} {files : FileSource} {parsed : Parsed (List Concept)}

/-- The concepts of an accepted source are writable if they fit. -/
theorem Concept.writable_of_parse (h : Concept.parse source fileName files = .ok parsed)
    (hfit : ∀ c ∈ parsed.document, c.Fits files) : ∀ c ∈ parsed.document, c.Writable files := by
  intro c hc
  obtain ⟨hstepped, havoids⟩ := (ordered_of_parse h).1 c hc
  exact ⟨hfit c hc, titled_of_parse h c hc, hstepped, havoids⟩

/-- **Layouts of concept files are stable.** If each concept of an accepted source, written on lines
of its own, is one that these lines give back, the written text is accepted, its concepts have the
same signatures and formal parameters in the same order, and they are written the same way again. -/
theorem Layout.concepts_stable_of_fit (h : Concept.parse source fileName files = .ok parsed)
    (hfit : ∀ c ∈ parsed.document, c.Fits files) (lay : Layout) :
    ∃ again, Concept.parse (lay.concepts parsed.document) fileName files = .ok again ∧
      again.document.map (fun c => (c.signature, c.formals)) =
        parsed.document.map (fun c => (c.signature, c.formals)) ∧
      lay.concepts again.document = lay.concepts parsed.document := by
  obtain ⟨again, hagain, hbare⟩ := parse_concepts (Concept.writable_of_parse h hfit)
    (Concept.ordered_of_parse h).2 lay fileName
  have hview : ∀ {α : Type} (f : Concept → α), (∀ c, f c.bare = f c) →
      again.document.map f = parsed.document.map f := by
    intro α f hf
    have hmap := congrArg (List.map f) hbare
    simpa only [List.map_map, Function.comp_def, hf] using hmap
  refine ⟨again, hagain, hview _ fun _ => rfl, ?_⟩
  rw [concepts, concepts, List.flatMap_def, List.flatMap_def, hview _ lay.concept_bare]

end

/-- A concept file with comments of every kind: free text, tags, a `table:` line, a row that no
table takes, a marker and a line of dashes. -/
def shopConcepts : Text :=
  ("Shop concepts.\ntags: till, daily\n\n# buy <item> for <price>\nnotes\n* open \"shop\"\n" ++
    "* pay <price>\n| thing | cost |\n| <item> | 1 |\ntable: prices.csv\n| lamp | 2 |\n___\n" ++
    "tags: late\n* write\n\"\"\"\na note\n\"\"\"\n# leave\n* close\n--\n").toList

theorem exists_parse_shopConcepts :
    ∃ parsed, Concept.parse shopConcepts [] (.ofEntries []) = .ok parsed ∧
      parsed.document.length = 2 ∧ ∀ c ∈ parsed.document, c.Fits (.ofEntries []) := by
  have hfit : ((Concept.parse shopConcepts [] (.ofEntries [])).toOption.any fun parsed =>
      decide (parsed.document.length = 2 ∧ ∀ c ∈ parsed.document, c.Fits (.ofEntries []))) =
        true := by
    -- the characters are written out first, since cutting up a long string takes the kernel long
    have hchars : shopConcepts = _ := String.toList_append
    simp only [String.toList_append, String.reduceToList] at hchars
    rw [hchars]
    decide +kernel
  obtain ⟨parsed, hparse, hfit⟩ := exists_ok_of_any hfit
  exact ⟨parsed, hparse, of_decide_eq_true hfit⟩

theorem Layout.concepts_stable_of_fit_shopConcepts :
    ∃ parsed again, Concept.parse shopConcepts [] (.ofEntries []) = .ok parsed ∧
      parsed.document.length = 2 ∧ (∀ c ∈ parsed.document, c.Fits (.ofEntries [])) ∧
      Concept.parse (Layout.concepts ⟨5⟩ parsed.document) [] (.ofEntries []) = .ok again ∧
      again.document.map (fun c => (c.signature, c.formals)) =
        parsed.document.map (fun c => (c.signature, c.formals)) ∧
      Layout.concepts ⟨5⟩ again.document = Layout.concepts ⟨5⟩ parsed.document := by
  obtain ⟨parsed, hparse, hlen, hfit⟩ := exists_parse_shopConcepts
  obtain ⟨again, hagain, hsame⟩ := Layout.concepts_stable_of_fit hparse hfit ⟨5⟩
  exact ⟨parsed, again, hparse, hlen, hfit, hagain, hsame⟩

/-- Not every accepted concept file is written so that it is accepted again: a brace in the text of
a heading is written without the backslash that it needs. -/
theorem Layout.not_concepts_stable_of_brace :
    ¬ ∀ (source fileName : Text) (files : FileSource) (lay : Layout)
      (parsed : Parsed (List Concept)), Concept.parse source fileName files = .ok parsed →
      ∃ again, Concept.parse (lay.concepts parsed.document) fileName files = .ok again ∧
        again.document.map (fun c => (c.signature, c.formals)) =
          parsed.document.map (fun c => (c.signature, c.formals)) ∧
        lay.concepts again.document = lay.concepts parsed.document := by
  intro h
  have hfirst : (Concept.parse "# say \\\x7bhi\\\x7d\n* b\n".toList [] (.ofEntries [])).toOption.map
      (fun parsed => Layout.concepts ⟨5⟩ parsed.document) =
      some "# say \x7bhi\x7d\n* b\n".toList := by decide +kernel
  have hsecond : (Concept.parse "# say \x7bhi\x7d\n* b\n".toList []
      (.ofEntries [])).toOption.isNone := by decide +kernel
  obtain ⟨parsed, hparse, hfirst⟩ := exists_ok_of_map hfirst
  obtain ⟨again, hagain, -⟩ := h _ _ _ ⟨5⟩ parsed hparse
  rw [hfirst] at hagain
  rw [hagain] at hsecond
  cases hsecond

end ScenarioBook
