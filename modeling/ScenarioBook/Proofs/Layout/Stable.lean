import ScenarioBook.Proofs.Document.WellFormed
import ScenarioBook.Proofs.Layout.RoundTrip
import ScenarioBook.Proofs.Layout.Settled

/-!
# Layouts are stable

What is written for an accepted document is accepted again and is written the same way again, if
each item that its lines are read as below the heading is one that these lines give back
(`Layout.stable_of_fit`). These items are the ones of the document, if they fit themselves
(`Layout.reread_of_fit`); else some data tables and comments are exchanged (`Layout.reread`). An
accepted document without such items need not be stable (`Layout.not_stable_of_moved_heading`).
-/

set_option autoImplicit false

namespace ScenarioBook

/-- Items on the same lines leave a document without flaws, if it has one data table at most. -/
theorem Layout.SameLines.flaws_eq_nil {lay : Layout} {d : Document} {items : List Item}
    (h : lay.SameLines d.items items) (hone : (d.items.filterMap Item.dataTable?).length ≤ 1)
    (hd : d.flaws = []) : { d with items := items }.flaws = [] := by
  obtain ⟨hne, hheading, hrows, hsteps⟩ := Document.flaws_eq_nil_iff.1 hd
  refine Document.flaws_eq_nil_iff.2 ⟨h.nonempty hne, hheading, fun data hdata => ?_, ?_⟩
  · have hmem : data ∈ items.filterMap Item.dataTable? := by
      rw [Document.dataTable?, ← List.head?_filterMap] at hdata
      exact List.mem_of_head? hdata
    rcases h.data data hmem with hold | hnew
    · have hsingle : d.dataTable? = some data := by
        rw [Document.dataTable?, ← List.head?_filterMap]
        obtain ⟨only, honly⟩ := List.length_eq_one_iff.1
          (Nat.le_antisymm hone (List.length_pos_of_mem hold))
        rw [honly] at hold ⊢
        rw [List.mem_singleton.1 hold]
        rfl
      exact hrows data hsingle
    · rintro ⟨hinit, hzero⟩
      exact hnew hinit hzero
  · rw [Document.scenarios, h.scenarios]
    exact hsteps

theorem Layout.SameLines.document_eq {lay : Layout} {d : Document} {items : List Item}
    (h : lay.SameLines d.items items) :
    lay.document { d with items := items } = lay.document d := by
  rw [lay.document_eq, lay.document_eq, documentLines, documentLines, h.lines]

section
variable {source fileName : Text} {dictionary : Dictionary} {files : FileSource}
  {parsed : Parsed Document}

/-- An accepted document with other items on the same lines is writable, if these fit. -/
theorem writable_of_parse (h : Document.parse source fileName dictionary files = .ok parsed)
    {lay : Layout} {items : List Item} (hlines : lay.SameLines parsed.document.items items)
    (hi : FitAll (Item.Fits files) [] items) :
    { parsed.document with items := items }.Writable files := by
  obtain ⟨tokens, read, htokens, hread, hdoc⟩ := Document.parse_eq_ok h
  have hwell := (Document.wellFormed_of_ofTokens hread).mapSteps dictionary.step_expand
  rw [← Dictionary.expandDocument, ← hdoc] at hwell
  obtain ⟨-, hflaws⟩ := Document.ofTokens_eq_ok hread
  refine ⟨?_, hi, hlines.flaws_eq_nil hwell.oneDataTable ?_⟩
  · obtain ⟨heading, hheading, hw⟩ :=
      Document.heading_of_ofTokens hread (Token.titled_of_tokenize htokens)
    exact ⟨heading, by rw [hdoc]; exact hheading, hw⟩
  · rw [hdoc, ← Document.flaws_bare_eq_nil_iff, dictionary.bare_expandDocument,
      Document.flaws_bare_eq_nil_iff]
    exact hflaws

/-- **Layouts are stable.** If each item that the lines of an accepted document are read as below
its heading, written on lines of its own, is one that these lines give back, the written text is
accepted, and it is written the same way again. -/
theorem Layout.stable_of_fit (h : Document.parse source fileName dictionary files = .ok parsed)
    (lay : Layout) (hi : FitAll (Item.Fits files) [] (lay.reread files parsed.document.items)) :
    ∃ again, Document.parse (lay.document parsed.document) fileName dictionary files = .ok again ∧
      lay.document again.document = lay.document parsed.document := by
  have hlines := lay.sameLines_reread files parsed.document.items
  have hw := writable_of_parse h hlines hi
  obtain ⟨again, hagain, hbare⟩ := parse_document
    (d := { parsed.document with
      fileName := fileName, items := lay.reread files parsed.document.items })
    ⟨hw.heading, hw.items, hw.flawless⟩ lay dictionary
  have hsame : lay.document again.document = lay.document { parsed.document with
      items := lay.reread files parsed.document.items } := by
    rw [← lay.document_bare again.document, hbare, lay.document_bare]
    rfl
  refine ⟨again, ?_, hsame.trans hlines.document_eq⟩
  rw [← hlines.document_eq]
  exact hagain

end

/-- A document with an item of every kind, and with tags and a table that are ignored. Before its
heading stand a `table:` line and a marker, so below the heading that line is the data table, and
the table that stands there is kept as comments. -/
def guestBook : Text :=
  ["table: rooms.csv", "____", "# Guests", "tags: visits, daily", "", "| name | room |",
    "| ada | 1 |", "* open the book", "tags: late,", "## Arrival", "| floor |", "| 2 |",
    "The desk is staffed.", "* greet <name> with \"good\\tday\"", "| key |", "| <room> |", "* read",
    "\"\"\"", "house rules", "\"\"\"", "| rule |", "____", "* close the book"].flatMap
    fun line => asLine line.toList

def rooms : FileSource := .ofEntries [("rooms.csv".toList, "name,room\nbob,2\n".toList)]

theorem exists_parse_guestBook :
    ∃ parsed, Document.parse guestBook [] .empty rooms = .ok parsed ∧
      ¬ FitAll (Item.Fits rooms) [] parsed.document.items ∧
      FitAll (Item.Fits rooms) [] (Layout.reread ⟨5⟩ rooms parsed.document.items) := by
  have hfit : ((Document.parse guestBook [] .empty rooms).toOption.any fun parsed =>
      decide (¬ FitAll (Item.Fits rooms) [] parsed.document.items ∧
        FitAll (Item.Fits rooms) [] (Layout.reread ⟨5⟩ rooms parsed.document.items))) = true := by
    decide +kernel
  obtain ⟨parsed, hparse, hfit⟩ := exists_ok_of_any hfit
  exact ⟨parsed, hparse, of_decide_eq_true hfit⟩

theorem Layout.stable_of_fit_guestBook :
    ∃ parsed again, Document.parse guestBook [] .empty rooms = .ok parsed ∧
      ¬ FitAll (Item.Fits rooms) [] parsed.document.items ∧
      FitAll (Item.Fits rooms) [] (Layout.reread ⟨5⟩ rooms parsed.document.items) ∧
      Document.parse (Layout.document ⟨5⟩ parsed.document) [] .empty rooms = .ok again ∧
      Layout.document ⟨5⟩ again.document = Layout.document ⟨5⟩ parsed.document := by
  obtain ⟨parsed, hparse, hnot, hfit⟩ := exists_parse_guestBook
  obtain ⟨again, hagain, hsame⟩ := Layout.stable_of_fit hparse ⟨5⟩ hfit
  exact ⟨parsed, again, hparse, hnot, hfit, hagain, hsame⟩

/-- Not every accepted document is written the same way again: the heading is written before the
prose that stood above it, which then stands above a line of dashes and is read as a heading. -/
theorem Layout.not_stable_of_moved_heading :
    ¬ ∀ (source fileName : Text) (dictionary : Dictionary) (files : FileSource) (lay : Layout)
      (parsed : Parsed Document), Document.parse source fileName dictionary files = .ok parsed →
      ∃ again, Document.parse (lay.document parsed.document) fileName dictionary files = .ok again ∧
        lay.document again.document = lay.document parsed.document := by
  intro h
  have hfirst : (Document.parse "Intro\n# H\n---\n* a\n".toList [] .empty
      (.ofEntries [])).toOption.map (fun parsed => Layout.document ⟨5⟩ parsed.document) =
      some "# H\nIntro\n---\n* a\n".toList := by decide +kernel
  have hsecond : (Document.parse "# H\nIntro\n---\n* a\n".toList [] .empty
      (.ofEntries [])).toOption.map (fun parsed => Layout.document ⟨5⟩ parsed.document) =
      some "# H\n## Intro\n* a\n".toList := by decide +kernel
  obtain ⟨parsed, hparse, hfirst⟩ := exists_ok_of_map hfirst
  obtain ⟨again, hagain, hsame⟩ := h _ _ _ _ ⟨5⟩ parsed hparse
  rw [hfirst] at hagain hsame
  rw [hagain] at hsecond
  have hsecond : Layout.document ⟨5⟩ again.document = _ := Option.some.inj hsecond
  exact absurd (hsecond.symm.trans hsame) (by decide)

end ScenarioBook
