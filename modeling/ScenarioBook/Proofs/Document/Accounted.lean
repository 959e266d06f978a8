import ScenarioBook.Proofs.Document.Ledger

/-!
# Nothing is lost

Every token of an accepted source stands in the document: the tokens are divided among the heading
and the entries of the items, each in one place, and the items stand in the order of their lines
(`Document.AccountedBy`, `Document.accountedBy_of_parse`). Three things are asked of the source. No
step stands before the heading of the document, because such a step is dropped. If a table stands
below a step of the context, then no teardown marker stands before the heading, because behind such
a marker the tables of context steps are dropped. And a `tags:` line with a warning, which is one
that is repeated, holds all its values, because the lines that go on with it are not kept.

The heading matters: a document with a step before it is accepted, and the step is gone
(`Document.not_accountedBy_of_early_step`).
-/

set_option autoImplicit false

namespace ScenarioBook

/-- What follows `tags:` in a line of that shape. -/
def Shape.tags? : Shape → Option Text
  | .tags text => some text
  | _ => none

namespace Token

/-- The text that a `tags:` line leaves as a comment gives all its values. -/
def HoldsTags (t : Token) : Prop :=
  (Shape.ofTrimmed t.asComment.trim).tags?.map splitTags = some t.args

instance (t : Token) : Decidable t.HoldsTags := inferInstanceAs (Decidable (_ = _))

instance (found : List Diagnostic) (t : Token) : Decidable (t.NotedIn found) :=
  inferInstanceAs (Decidable (∃ x ∈ found, x.lineNo = some t.lineNo))

end Token

namespace Document

/-- **Every token has its place**: it is the heading, or it belongs to one entry, and each item is
what its entry stands for. The items stand in the order of their first lines, and the lines of an
entry in theirs. -/
structure AccountedBy (files : FileSource) (tokens : List Token) (d : Document) (head : Token)
    (entries : List Entry) : Prop where
  heading : ∃ title, head.content = .heading .spec title ∧
    d.heading = some ⟨title, head.lineNo, .spec⟩
  records : List.Forall₂ (Entry.Records files fun t => t.isTags → t.HoldsTags) entries d.flat
  all : (head :: entries.flatMap Entry.tokens).Perm tokens
  order : (entries.map Entry.token).Sublist tokens
  below : ∀ e ∈ entries, e.tokens.Sublist tokens

/-! ## Expansion -/

theorem flat_mapSteps (d : Document) (f : StepTree → StepTree) :
    (d.mapSteps f).flat = d.flat.map fun i => (i.mapStep? f).getD i := by
  simp only [flat, mapSteps, List.flatMap_map, List.map_flatMap]
  congr 1
  funext i
  cases i <;> rfl

/-- An item stands for its entry whatever hangs below its step. -/
theorem records_mapStep? {files : FileSource} {Kept : Token → Prop} {e : Entry} {i : Item}
    (h : e.Records files Kept i) {f : StepTree → StepTree} (hf : ∀ t, (f t).step = t.step) :
    e.Records files Kept ((i.mapStep? f).getD i) := by
  cases h with
  | comment hk hkept => exact .comment hk hkept
  | tags hc => exact .tags hc
  | reference hc href => exact .reference hc href
  | scenario hc => exact .scenario hc
  | tearDown hc => exact .tearDown hc
  | data htable => exact .data htable
  | step hc htables hstep => exact .step hc htables ((hf _).trans hstep)

/-! ## Steps one by one -/

section
variable {files : FileSource} {Kept : Token → Prop}

theorem isStep_eq_false_of_keepable {t : Token} (h : t.Keepable) : t.isStep = false := by
  unfold Token.Keepable at h
  unfold Token.isStep
  split
  case h_1 hc => rw [hc] at h; exact h.elim
  case h_2 => rfl

theorem countP_isStep_tableLines {read : Token → List Cell} {lines : TableLines} {table : Table}
    (h : lines.Gives read table) : lines.tokens.countP Token.isStep = 0 := by
  obtain ⟨row, hheader⟩ := h.header
  refine List.countP_eq_zero.2 (List.forall_mem_cons.2 ⟨?_, fun t ht => ?_⟩)
  · simp [Token.isStep, hheader]
  · obtain ⟨row, cells, hc⟩ := h.kinds t ht
    simp [Token.isStep, hc]

/-- The entry of a step has one step token, and no other entry has any. -/
theorem countP_isStep_entry {e : Entry} {i : Item} (h : e.Records files Kept i) :
    e.tokens.countP Token.isStep = (i.step?.toList).length := by
  cases h with
  | comment hk =>
    simp [Entry.tokens, Entry.token, Entry.below, isStep_eq_false_of_keepable hk, Item.step?]
  | tags hc | reference hc | scenario hc | tearDown hc =>
    simp [Entry.tokens, Entry.token, Entry.below, Token.isStep, hc, Item.step?]
  | data htable => exact countP_isStep_tableLines htable
  | @step t value args block lines tables tree hc htables hstep =>
    have hzero : (lines.flatMap TableLines.tokens).countP Token.isStep = 0 := by
      clear hstep
      induction htables with
      | nil => rfl
      | cons htable _ ih => simp [countP_isStep_tableLines htable, ih]
    simp [Entry.tokens, Entry.token, Entry.below, hzero, Token.isStep, hc, Item.step?]

theorem steps_eq_flat (d : Document) : d.steps = d.flat.filterMap Item.step? := by
  rw [steps, flat, List.filterMap_flatMap]
  congr 1
  funext i
  cases i <;> rfl

theorem countP_isStep_entries {entries : List Entry} {items : List Item}
    (h : List.Forall₂ (Entry.Records files Kept) entries items) :
    (entries.flatMap Entry.tokens).countP Token.isStep = (items.filterMap Item.step?).length := by
  induction h with
  | nil => rfl
  | @cons e i entries items hr _ ih =>
    rw [List.flatMap_cons, List.countP_append, ih, countP_isStep_entry hr, List.filterMap_cons]
    cases i.step? <;> simp [Nat.add_comm]

/-- **There are as many steps as step tokens.** -/
theorem AccountedBy.countP_isStep {tokens : List Token} {d : Document} {head : Token}
    {entries : List Entry} (h : d.AccountedBy files tokens head entries) :
    tokens.countP Token.isStep = d.steps.length := by
  obtain ⟨title, hhead, -⟩ := h.heading
  rw [← h.all.countP_eq, List.countP_cons, countP_isStep_entries h.records, steps_eq_flat]
  simp [Token.isStep, hhead]

end

/-! ## Accepted sources -/

section
variable {source fileName : Text} {dictionary : Dictionary} {files : FileSource}
  {parsed : Parsed Document} {tokens : List Token}

/-- **Nothing is lost.** If no step stands before the heading, nor a marker where a context step has
a table, and each `tags:` line with a warning holds its values, all tokens of an accepted source
have their place in the document. -/
theorem accountedBy_of_parse
    (hparse : Document.parse source fileName dictionary files = .ok parsed)
    (htok : tokenize source = .ok tokens)
    (hsteps : ∀ t ∈ Token.beforeHeading tokens, t.isStep = false)
    (hmarkers : Token.TablesContext tokens →
      ∀ m ∈ Token.beforeHeading tokens, m.isTearDown = false)
    (htags : ∀ t ∈ tokens, t.isTags → t.NotedIn parsed.warnings → t.HoldsTags) :
    ∃ head entries, parsed.document.AccountedBy files tokens head entries := by
  obtain ⟨tokens', read, htok', hread, rfl⟩ := parse_eq_ok_expand hparse
  cases htok.symm.trans htok'
  obtain ⟨-, hflaws⟩ := ofTokens_eq_ok hread
  obtain ⟨-, ⟨heading, hheading, -⟩, -⟩ := flaws_eq_nil_iff.1 hflaws
  obtain ⟨b, heads, entries, lost, hl, rfl⟩ :=
    ledger_of_ofTokens hread (Token.named_of_tokenize htok)
  obtain ⟨-, hnone⟩ | ⟨head, title, rfl, hhead, hset⟩ := hl.heading
  · rw [hheading] at hnone
    cases hnone
  -- what can be lost has a reason that the hypotheses exclude
  have hlost : lost = [] := by
    rw [List.eq_nil_iff_forall_not_mem]
    intro t ht
    rcases hl.lost t ht with ⟨hstep, hin⟩ | ⟨-, htables, marker, hin, hmarker⟩
    · rw [hsteps t hin] at hstep
      cases hstep
    · rw [hmarkers htables marker hin] at hmarker
      cases hmarker
  refine ⟨head, entries, ⟨title, hhead, hset⟩, ?_, ?_, hl.order, hl.below⟩
  · rw [Dictionary.expandDocument, flat_mapSteps, List.forall₂_map_right_iff]
    refine hl.records.imp fun e i hr => records_mapStep? (hr.mono ?_) dictionary.step_expand
    intro t hkept ht
    exact htags t hkept.1 ht (hkept.2 ht)
  · simpa [hlost] using hl.all

/-! ### A source that is kept in full, and one that is not -/

/-- Prose and a marker before the heading, tags on two lines, a data table, a context step without a
table, a table below a step of a scenario, tags that are repeated, and a teardown. -/
def picnicSource : Text :=
  ["Bring a hat", "___", "# Picnic", "tags: summer,", "free", "|guest|", "|-----|", "|ann|",
    "* pack", "## Lunch", "* pass", "|to|", "|<guest>|", "tags: short", "tags: late", "* eat",
    "___", "* clean up"].flatMap fun line => asLine line.toList

theorem accountedBy_of_parse_picnic :
    ∃ tokens parsed head entries, tokenize picnicSource = .ok tokens ∧ tokens.length = 17 ∧
      (∃ m ∈ Token.beforeHeading tokens, m.isTearDown = true) ∧
      Document.parse picnicSource [] .empty noFiles = .ok parsed ∧
      parsed.document.AccountedBy noFiles tokens head entries := by
  have hok : ((tokenize picnicSource).toOption.any fun tokens =>
      (Document.parse picnicSource [] .empty noFiles).toOption.any fun parsed =>
        decide (tokens.length = 17 ∧
          (∃ m ∈ Token.beforeHeading tokens, m.isTearDown = true) ∧
          (∀ t ∈ Token.beforeHeading tokens, t.isStep = false) ∧
          ¬ Token.TablesContext tokens ∧
          ∀ t ∈ tokens, t.isTags → t.NotedIn parsed.warnings → t.HoldsTags)) = true := by
    decide +kernel
  obtain ⟨tokens, htok, hok⟩ := exists_ok_of_any hok
  obtain ⟨parsed, hparse, hok⟩ := exists_ok_of_any hok
  obtain ⟨hlen, hmarker, hsteps, htables, htags⟩ := of_decide_eq_true hok
  obtain ⟨head, entries, hall⟩ :=
    accountedBy_of_parse hparse htok hsteps (fun h => absurd h htables) htags
  exact ⟨tokens, parsed, head, entries, htok, hlen, hmarker, hparse, hall⟩

/-- A step before the heading. -/
def earlySource : Text := "* a\n# H\n* b\n".toList

/-- The step before the heading is gone: two steps are written, one is kept. -/
theorem not_accountedBy_of_early_step :
    ∃ tokens parsed, tokenize earlySource = .ok tokens ∧
      Document.parse earlySource [] .empty noFiles = .ok parsed ∧
      ∀ head entries, ¬ parsed.document.AccountedBy noFiles tokens head entries := by
  have htwo : (tokenize earlySource).toOption.map (·.countP Token.isStep) = some 2 := by
    decide +kernel
  have hone : (Document.parse earlySource [] .empty noFiles).toOption.map
      (·.document.steps.length) = some 1 := by decide +kernel
  obtain ⟨tokens, htok, htwo⟩ := exists_ok_of_map htwo
  obtain ⟨parsed, hparse, hone⟩ := exists_ok_of_map hone
  refine ⟨tokens, parsed, htok, hparse, fun head entries hall => ?_⟩
  have hsame := hall.countP_isStep
  omega

end

end Document

end ScenarioBook
