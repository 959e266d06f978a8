import Mathlib.Data.Finset.Insert
import Mathlib.Data.Finset.Lattice.Basic
import ScenarioBook.Proofs.Document.Moves

/-!
# The place as a set of flags

The place of the builder can be kept as a set of independent flags instead: each token keeps the
flags of a mask, or all of them, and sets at most one (`Builder.mark`). Most of the sets mean
nothing, and one wrong mask would send a line to an earlier scenario. The sets that come up are the
ones that stand for a place: `Flag.Agrees` holds before the first token and every token keeps it
(`Flag.Agrees.accept`), so after any tokens the flags say the same as the place
(`Builder.agrees_flags`).
-/

set_option autoImplicit false

namespace ScenarioBook

/-- What is open, one flag for each answer. -/
inductive Flag where
  /-- the heading of the document was read -/
  | spec
  | scenario
  /-- a step of the open scenario can take tables -/
  | step
  /-- a context step can take tables -/
  | context
  | tearDown
  /-- a table can take rows -/
  | table
deriving DecidableEq

namespace Flag

/-- The flags of the open section. -/
def sections : Finset Flag := {.spec, .scenario, .tearDown}

/-- The flags of the open section and the open step. -/
def owners : Finset Flag := {.spec, .scenario, .step, .context, .tearDown}

/-- What a comment leaves. -/
def closed (s : Finset Flag) : Finset Flag := s ∩ sections

/-- What a header of a table leaves. -/
def tabled (s : Finset Flag) : Finset Flag := insert .table (s ∩ owners)

end Flag

/-- The flags after a token, given what is in the document. -/
def Builder.mark (b : Builder) (t : Token) (s : Finset Flag) : Finset Flag :=
  match t.content with
  | .heading .spec _ => if b.document.heading.isSome then s else {.spec}
  | .heading .scenario title =>
    if b.document.heading.isNone ∨ (b.namesake? title).isSome then s
    else insert .scenario (s ∩ {.spec})
  | .step _ _ _ =>
    if .scenario ∉ s ∧ .spec ∉ s then s
    else if .tearDown ∈ s then s ∩ {.spec, .tearDown}
    else if .scenario ∈ s then insert .step (s ∩ {.spec, .scenario})
    else insert .context (s ∩ {.spec})
  | .tableHeader _ _ =>
    if .spec ∉ s then Flag.closed s
    else if .step ∈ s ∨ .context ∈ s then Flag.tabled s
    else if .tearDown ∈ s then
      if b.document.latestTearDownStep?.isSome then Flag.tabled s else Flag.closed s
    else if .scenario ∈ s then s
    else if b.document.dataTable?.isNone then Flag.tabled s
    else s
  | .tableRow _ cells =>
    if .table ∉ s then Flag.closed s
    else if Row.isSeparator cells then s
    else s ∩ insert .table Flag.owners
  | .comment _ | .tags _ _ => Flag.closed s
  | .dataTable _ => s
  | .tearDown _ => insert .tearDown (s ∩ {.spec})

namespace Flag

/-- The flags say what the place says. A marker before the heading sets its flag, but opens no
teardown. -/
structure Agrees (s : Finset Flag) (p : Place) : Prop where
  spec : .spec ∈ s ↔ p.current ≠ .preamble
  scenario : .scenario ∈ s ↔ p.current = .scenario
  tearDown : p.current = .tearDown → .tearDown ∈ s
  marked : .tearDown ∈ s → p.current = .tearDown ∨ p.current = .preamble
  step : .step ∈ s ↔ p.current = .scenario ∧ p.stepOpen = true
  context : .context ∈ s ↔ p.current = .context ∧ p.stepOpen = true
  table : .table ∈ s ↔ p.tableOpen = true

section
variable {files : FileSource} {b : Builder} {t : Token} {s : Finset Flag} {p : Place}

/-- The flags of scenario and teardown are never set together. -/
theorem Agrees.not_tearDown (h : Agrees s p) (hs : .scenario ∈ s) : .tearDown ∉ s := by
  intro ht
  have hcur := h.scenario.1 hs
  rcases h.marked ht with hp | hp <;> rw [hcur] at hp <;> cases hp

theorem Agrees.close (h : Agrees s p) : Agrees (closed s) ⟨p.current, false, false⟩ where
  spec := by simpa [closed, sections] using h.spec
  scenario := by simpa [closed, sections] using h.scenario
  tearDown := by simpa [closed, sections] using h.tearDown
  marked := by simpa [closed, sections] using h.marked
  step := by simp [closed, sections]
  context := by simp [closed, sections]
  table := by simp [closed, sections]

theorem Agrees.open (h : Agrees s p) : Agrees (tabled s) { p with tableOpen := true } where
  spec := by simpa [tabled, owners] using h.spec
  scenario := by simpa [tabled, owners] using h.scenario
  tearDown := by simpa [tabled, owners] using h.tearDown
  marked := by simpa [tabled, owners] using h.marked
  step := by simpa [tabled, owners] using h.step
  context := by simpa [tabled, owners] using h.context
  table := by simp [tabled]

/-- The mask of a row holds every flag. -/
theorem inter_owners (s : Finset Flag) : s ∩ insert .table owners = s := by
  refine Finset.inter_eq_left.2 fun flag _ => ?_
  cases flag <;> decide

/-! ## One lemma for each kind of token -/

theorem Agrees.specHeading (h : Agrees s b.place) {title : Text}
    (hc : t.content = .heading .spec title) :
    Agrees (b.mark t s) (b.specHeading t title).place := by
  simp only [Builder.mark, hc]
  unfold Builder.specHeading
  split
  case isTrue => exact h
  case isFalse => constructor <;> simp [Builder.enter]

theorem Agrees.scenarioHeading (h : Agrees s b.place)
    (hheaded : b.document.heading.isSome → b.place.current ≠ .preamble) {title : Text}
    (hc : t.content = .heading .scenario title) :
    Agrees (b.mark t s) (b.scenarioHeading t title).place := by
  simp only [Builder.mark, hc]
  unfold Builder.scenarioHeading
  cases hsome : b.document.heading with
  | none => exact h
  | some heading =>
    have hspec := h.spec.2 (hheaded (by rw [hsome]; rfl))
    cases hnew : b.namesake? title with
    | some existing => exact h
    | none => constructor <;> simp [Builder.enter, hspec]

theorem Agrees.stepLine (h : Agrees s b.place) {value : Text} {args : List RawArg}
    {block : Option Text} (hc : t.content = .step value args block) :
    Agrees (b.mark t s) (b.step files t value args block).place := by
  have hspec := h.spec
  have hscenario := h.scenario
  have hmarked := h.marked
  have hplace : ∀ found i, ((b.report found).add i).place = b.place := fun _ _ => rfl
  simp only [Builder.mark, hc]
  unfold Builder.step
  simp only [hplace]
  cases hp : b.place.current with
  | preamble =>
    rw [if_pos ⟨by simp [hscenario, hp], by simp [hspec, hp]⟩]
    exact h
  | context =>
    have htear : .tearDown ∉ s := fun ht => by rcases hmarked ht with hq | hq <;> simp [hp] at hq
    rw [if_neg (by simp [hspec, hp]), if_neg htear, if_neg (by simp [hscenario, hp])]
    constructor <;> simp [hspec, hp]
  | scenario =>
    have htear : .tearDown ∉ s := h.not_tearDown (hscenario.2 hp)
    rw [if_neg (by simp [hspec, hp]), if_neg htear, if_pos (hscenario.2 hp)]
    constructor <;> simp [hspec, hscenario, hp]
  | tearDown =>
    have htear := h.tearDown hp
    rw [if_neg (by simp [hspec, hp]), if_pos htear]
    constructor <;> simp [hspec, hp, htear]

theorem Agrees.tableHeader (h : Agrees s b.place) {row : Text} {cells : List Text}
    (hc : t.content = .tableHeader row cells) :
    Agrees (b.mark t s) (b.tableHeader t cells).place := by
  simp only [Builder.mark, hc]
  unfold Builder.tableHeader
  cases hp : b.place.current with
  | preamble =>
    rw [if_pos (by simp [h.spec, hp])]
    exact h.close
  | context =>
    have htear : .tearDown ∉ s := fun ht => by
      rcases h.marked ht with hq | hq <;> simp [hp] at hq
    rw [if_neg (by simp [h.spec, hp])]
    cases hst : b.place.stepOpen with
    | true =>
      rw [if_pos (by simp [h.context, hp, hst])]
      exact h.open
    | false =>
      rw [if_neg (by simp [h.step, h.context, hst]), if_neg htear,
        if_neg (by simp [h.scenario, hp])]
      simp only [Bool.false_eq_true, if_false]
      split
      · exact h.open
      · exact h
  | scenario =>
    have htear : .tearDown ∉ s := h.not_tearDown (h.scenario.2 hp)
    rw [if_neg (by simp [h.spec, hp])]
    cases hst : b.place.stepOpen with
    | true =>
      rw [if_pos (by simp [h.step, hp, hst])]
      exact h.open
    | false =>
      rw [if_neg (by simp [h.step, h.context, hst]), if_neg htear, if_pos (h.scenario.2 hp)]
      exact h
  | tearDown =>
    rw [if_neg (by simp [h.spec, hp]), if_neg (by simp [h.step, h.context, hp]),
      if_pos (h.tearDown hp)]
    simp only
    split
    · exact h.open
    · exact h.close

theorem Agrees.tableRow (h : Agrees s b.place) {row : Text} {cells : List Text}
    (hc : t.content = .tableRow row cells) :
    Agrees (b.mark t s) (b.tableRow files t cells).place := by
  simp only [Builder.mark, hc, inter_owners, ite_self]
  unfold Builder.tableRow
  cases hopen : b.place.tableOpen with
  | false =>
    rw [if_pos (by simp [h.table, hopen])]
    exact h.close
  | true =>
    rw [if_neg (by simp [h.table, hopen])]
    simp only [Bool.not_true, Bool.false_eq_true, if_false]
    split
    · exact h
    · split <;> exact h

theorem Agrees.commentLine (h : Agrees s b.place) : Agrees (closed s) (b.comment t).place := h.close

theorem Agrees.tagsLine (h : Agrees s b.place) (values : List Text) :
    Agrees (closed s) (b.tags t values).place := by
  unfold Builder.tags
  simp only
  split <;> split <;> exact h.close

theorem Agrees.dataTable (h : Agrees s b.place) (path : Text) :
    Agrees s (b.dataTable files t path).place := by
  unfold Builder.dataTable
  cases Reference.dataTable files path with
  | error fault => exact h
  | ok table =>
    simp only
    split
    · exact h
    · split <;> exact h

theorem Agrees.tearDownLine (h : Agrees s b.place) (marker : Text) :
    Agrees (insert .tearDown (s ∩ {.spec})) (b.tearDown t marker).place := by
  have hspec := h.spec
  unfold Builder.tearDown
  cases hp : b.place.current <;> constructor <;> simp [Builder.enter, Builder.edit, hspec, hp]

/-- **One token keeps flags and place in agreement**, also where it reports an error. -/
theorem Agrees.accept (h : Agrees s b.place)
    (hheaded : b.document.heading.isSome → b.place.current ≠ .preamble) :
    Agrees (b.mark t s) (b.accept files t).place := by
  unfold Builder.accept
  split
  case h_1 title hc => exact h.specHeading hc
  case h_2 title hc => exact h.scenarioHeading hheaded hc
  case h_3 value args block hc => exact h.stepLine hc
  case h_4 hc => simpa only [Builder.mark, hc] using h.commentLine
  case h_5 row cells hc => exact h.tableHeader hc
  case h_6 row cells hc => exact h.tableRow hc
  case h_7 text values hc => simpa only [Builder.mark, hc] using h.tagsLine values
  case h_8 path hc => simpa only [Builder.mark, hc] using h.dataTable path
  case h_9 marker hc => simpa only [Builder.mark, hc] using h.tearDownLine marker

end

end Flag

namespace Builder

/-- The builder with its flags after one more token. -/
def acceptFlagged (files : FileSource) (state : Builder × Finset Flag) (t : Token) :
    Builder × Finset Flag :=
  (state.1.accept files t, state.1.mark t state.2)

/-- The flags after some tokens. No flag is set before the first. -/
def flags (files : FileSource) (fileName : Text) (seen : List Token) : Finset Flag :=
  (seen.foldl (acceptFlagged files) (start fileName, ∅)).2

theorem fst_foldl_acceptFlagged (files : FileSource) (seen : List Token)
    (state : Builder × Finset Flag) :
    (seen.foldl (acceptFlagged files) state).1 = seen.foldl (accept files) state.1 :=
  (List.foldl_hom Prod.fst fun _ _ => rfl).symm

theorem flags_concat (files : FileSource) (fileName : Text) (seen : List Token) (t : Token) :
    flags files fileName (seen ++ [t]) =
      (seen.foldl (accept files) (start fileName)).mark t (flags files fileName seen) := by
  have hfst := fst_foldl_acceptFlagged files seen (start fileName, ∅)
  rw [flags, List.foldl_append, List.foldl_cons, List.foldl_nil, acceptFlagged, hfst]
  rfl

/-- **After any tokens the flags say the same as the place.** -/
theorem agrees_flags (files : FileSource) (fileName : Text) (seen : List Token) :
    Flag.Agrees (flags files fileName seen)
      (seen.foldl (accept files) (start fileName)).place := by
  induction seen using List.reverseRecOn with
  | nil => constructor <;> simp [flags, start]
  | append_singleton seen t ih =>
    rw [flags_concat, List.foldl_append, List.foldl_cons, List.foldl_nil]
    exact ih.accept (filing_foldl files fileName seen).headed.1

end Builder

end ScenarioBook
