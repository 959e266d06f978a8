import Mathlib.Data.List.Flatten
import ScenarioBook.Proofs.Concept.Titled
import ScenarioBook.Proofs.Concept.Moves
import ScenarioBook.Proofs.Document.Moves
import ScenarioBook.Proofs.Document.Order

/-!
# Steps that call their own concept

A step that calls the concept it belongs to is reported when its token is taken. A block below the
line has changed the value of the step by then, a table has not: each header that follows adds a
placeholder to the value later. So a step is reported exactly if its value without the tables is the
signature (`Concept.selfCalls_of_tokenize`, for every source that has tokens). The final value says
the same unless a table is below the step and one of the two values is the signature. With a table a
call of the concept can stand in an accepted source, and a step that calls no concept can be refused
(`Concept.not_selfCall_iff_value`).

The builder is followed through what it shows of the bodies (`ConceptBuilder.bodySteps`): each entry
of `ConceptBuilder.Takes` appends a step to it, changes tables in it or leaves it as it is
(`ConceptBuilder.screened_takes`).
-/

set_option autoImplicit false

namespace ScenarioBook

/-! ## Lines of diagnostics -/

/-- The lines that diagnostics with a code are about. -/
def linesReported (code : Code) (found : List Diagnostic) : List Nat :=
  found.filterMap fun d => if d.code = some code then d.lineNo else none

theorem linesReported_append (code : Code) (found more : List Diagnostic) :
    linesReported code (found ++ more) = linesReported code found ++ linesReported code more :=
  List.filterMap_append

theorem linesReported_eq_nil {code : Code} {found : List Diagnostic}
    (h : ∀ d ∈ found, d.code ≠ some code) : linesReported code found = [] :=
  List.filterMap_eq_nil_iff.2 fun d hd => if_neg (h d hd)

theorem linesReported_problem {code : Code} {p : Problem} (t : Token) (h : p.code = code) :
    linesReported code [t.problem p] = [t.lineNo] := by
  simp [linesReported, Token.problem, Problem.located, Problem.diagnostic, Diagnostic.onLine,
    Diagnostic.withLabel, h]

theorem linesReported_problem_of_ne {code : Code} {p : Problem} (t : Token) (h : p.code ≠ code) :
    linesReported code [t.problem p] = [] :=
  linesReported_eq_nil fun d hd => by
    rw [List.mem_singleton.1 hd]
    exact fun heq => h (Option.some.inj heq)

namespace Token

section
variable (t : Token) (frame : Frame) (files : FileSource)

theorem code_problem_ne {p : Problem} (h : p.code ≠ .e303) :
    ∀ d ∈ [t.problem p], d.code ≠ some .e303 := fun d hd => by
  rw [List.mem_singleton.1 hd]
  exact fun heq => h (Option.some.inj heq)

theorem code_reference_ne (fault : Reference.Fault) : (Problem.reference fault).code ≠ .e303 := by
  cases fault <;> simp [Problem.code]

theorem code_readArg (raw : RawArg) :
    ∀ d ∈ (t.readArg frame files raw).2, d.code ≠ some .e303 := by
  unfold readArg
  split
  · exact List.forall_mem_nil _
  · simp only
    split
    · exact List.forall_mem_nil _
    · exact t.code_problem_ne (by simp [Problem.code])
  · split
    · exact List.forall_mem_nil _
    · exact t.code_problem_ne (code_reference_ne _)

/-- What is wrong with the arguments of a step is no self call. -/
theorem code_readStep (value : Text) (raws : List RawArg) (block : Option Text) :
    ∀ d ∈ (t.readStep frame files value raws block).2, d.code ≠ some .e303 := by
  have hargs : ∀ d ∈ (raws.map (t.readArg frame files)).flatMap (·.2), d.code ≠ some .e303 := by
    intro d hd
    obtain ⟨_, harg, hd⟩ := List.mem_flatMap.1 hd
    obtain ⟨raw, -, rfl⟩ := List.mem_map.1 harg
    exact t.code_readArg frame files raw d hd
  unfold readStep
  cases block with
  | none => exact hargs
  | some contents =>
    simp only
    split
    · exact hargs
    · exact List.forall_mem_append.2 ⟨hargs, t.code_problem_ne (by simp [Problem.code])⟩

theorem code_readCell (cell : Text) :
    ∀ d ∈ (t.readCell frame files cell).2, d.code ≠ some .e303 := by
  unfold readCell readFileCell?
  split
  · exact List.forall_mem_nil _
  · next name _ =>
    by_cases hfile : name.startsWith "file:".toList
    · rw [if_pos hfile]
      cases Reference.resolve files name with
      | ok arg => exact List.forall_mem_nil _
      | error fault => exact t.code_problem_ne (code_reference_ne fault)
    · rw [if_neg hfile]
      simp only
      split
      · exact List.forall_mem_nil _
      · exact t.code_problem_ne (by simp [Problem.code])

theorem code_readRow (cells : List Text) :
    ∀ d ∈ (t.readRow frame files cells).2, d.code ≠ some .e303 := by
  intro d hd
  obtain ⟨_, hcell, hd⟩ := List.mem_flatMap.1 hd
  obtain ⟨cell, -, rfl⟩ := List.mem_map.1 hcell
  exact t.code_readCell frame files cell d hd

end

end Token

/-! ## Steps with the concept they belong to -/

/-- A step of a body, with what a step needs to know of its concept. -/
structure BodyStep where
  formals : Frame
  signature : Text
  step : Step

def Concept.bodySteps (c : Concept) : List BodyStep := c.steps.map (⟨c.formals, c.signature, ·⟩)

def ConceptBuilder.bodySteps (b : ConceptBuilder) : List BodyStep :=
  b.opened.flatMap Concept.bodySteps

/-- The token is read as the step. -/
def Token.Reads (files : FileSource) (formals : Frame) (t : Token) (own : Step) : Prop :=
  ∃ value args block, t.content = .step value args block ∧
    own = (t.readStep formals files value args block).1

/-- The step was read from one of the tokens, tables were put below it since, and the line is
reported exactly if the step was read as a call of its concept. -/
def BodyStep.Screened (files : FileSource) (seen : List Token) (found : List Diagnostic)
    (e : BodyStep) : Prop :=
  ∃ t ∈ seen, ∃ (own : Step) (tables : List Table), t.Reads files e.formals own ∧
    e.step = tables.foldl Step.addInlineTable own ∧
    (t.lineNo ∈ linesReported .e303 found ↔ own.value = e.signature)

/-- The steps are accounted for: each was screened when it was read, only they are reported as self
calls, and no step token is missing without a diagnostic. -/
structure Screened (files : FileSource) (seen : List Token) (body : List BodyStep)
    (found : List Diagnostic) : Prop where
  screened : ∀ e ∈ body, e.Screened files seen found
  reported : linesReported .e303 found ⊆ body.map (·.step.lineNo)
  kept : ∀ t ∈ seen, ¬ t.Stepless →
    t.lineNo ∈ linesReported .e301 found ∨ t.lineNo ∈ body.map (·.step.lineNo)

theorem Token.Reads.lineNo {files : FileSource} {formals : Frame} {t : Token} {own : Step}
    (h : t.Reads files formals own) : own.lineNo = t.lineNo := by
  obtain ⟨value, args, block, -, rfl⟩ := h
  exact Builder.lineNo_readStep _ _ _ _

theorem Token.Reads.hasInlineTable {files : FileSource} {formals : Frame} {t : Token} {own : Step}
    (h : t.Reads files formals own) : own.hasInlineTable = false := by
  obtain ⟨value, args, block, -, rfl⟩ := h
  exact t.hasInlineTable_readStep _ _ _ _ _

namespace BodyStep
variable {files : FileSource} {seen : List Token} {found : List Diagnostic} {e : BodyStep}

/-- A step stands on the line of its token. -/
theorem Screened.exists_lineNo (h : e.Screened files seen found) :
    ∃ t ∈ seen, t.lineNo = e.step.lineNo := by
  obtain ⟨t, ht, own, tables, hreads, hstep, -⟩ := h
  exact ⟨t, ht, by rw [hstep, Step.lineNo_foldl_addInlineTable, hreads.lineNo]⟩

/-- More tokens and diagnostics change nothing, if no self call is reported on the lines so far. -/
theorem Screened.mono {seen' : List Token} (h : e.Screened files seen found) (hseen : seen ⊆ seen')
    {more : List Diagnostic} (hmore : ∀ u ∈ seen, u.lineNo ∉ linesReported .e303 more) :
    e.Screened files seen' (found ++ more) := by
  obtain ⟨u, hu, own, tables, hreads, hstep, hiff⟩ := h
  refine ⟨u, hseen hu, own, tables, hreads, hstep, ?_⟩
  rw [linesReported_append, List.mem_append, ← hiff]
  exact or_iff_left (hmore u hu)

theorem Screened.addInlineTable (h : e.Screened files seen found) (table : Table) :
    Screened files seen found { e with step := e.step.addInlineTable table } := by
  obtain ⟨t, ht, own, tables, hreads, hstep, hiff⟩ := h
  refine ⟨t, ht, own, tables ++ [table], hreads, ?_, hiff⟩
  rw [List.foldl_append, ← hstep]
  rfl

theorem Screened.addInlineRow (h : e.Screened files seen found) (cells : List Cell) :
    Screened files seen found { e with step := e.step.addInlineRow cells } := by
  obtain ⟨t, ht, own, tables, hreads, hstep, hiff⟩ := h
  obtain ⟨tables', htables⟩ := Step.exists_addInlineRow_foldl hreads.hasInlineTable tables cells
  exact ⟨t, ht, own, tables', hreads, by rw [hstep, htables], hiff⟩

end BodyStep

namespace Screened
variable {files : FileSource} {seen : List Token} {body body' : List BodyStep}
  {found more : List Diagnostic} {t : Token}

theorem nil (files : FileSource) : Screened files [] [] [] where
  screened := fun _ h => absurd h List.not_mem_nil
  reported := List.Subset.refl _
  kept := fun _ h => absurd h List.not_mem_nil

theorem of_eq {found' : List Diagnostic} (h : Screened files seen body found)
    (hbody : body' = body) (hfound : found' = found) : Screened files seen body' found' :=
  hbody ▸ hfound ▸ h

/-- Other diagnostics than self calls do no harm. -/
theorem report (h : Screened files seen body found) (hmore : linesReported .e303 more = []) :
    Screened files seen body (found ++ more) where
  screened := fun e he => (h.screened e he).mono (List.Subset.refl _) fun u _ => by
    rw [hmore]
    exact List.not_mem_nil
  reported := by
    rw [linesReported_append, hmore, List.append_nil]
    exact h.reported
  kept := fun u hu hstep => by
    rw [linesReported_append]
    exact (h.kept u hu hstep).imp_left (List.mem_append_left _)

/-- A token that adds no step is none, or has been reported. -/
theorem see (h : Screened files seen body found)
    (ht : t.Stepless ∨ t.lineNo ∈ linesReported .e301 found) :
    Screened files (seen ++ [t]) body found where
  screened := fun e he => by
    have hlater : e.Screened files (seen ++ [t]) (found ++ []) :=
      (h.screened e he).mono (List.subset_append_left seen [t]) fun _ _ => List.not_mem_nil
    rwa [List.append_nil] at hlater
  reported := h.reported
  kept := fun u hu hstep => by
    rcases List.mem_append.1 hu with hu | hu
    · exact h.kept u hu hstep
    · obtain rfl := List.mem_singleton.1 hu
      exact .inl (ht.resolve_left hstep)

/-- Tables and rows leave the steps on their lines. -/
theorem change (h : Screened files seen body found) {f : Step → Step}
    (hf : (∃ table, f = (·.addInlineTable table)) ∨ ∃ cells, f = (·.addInlineRow cells))
    (hbody : ∀ e' ∈ body', e' ∈ body ∨ ∃ e ∈ body, e' = { e with step := f e.step })
    (hlines : body'.map (·.step.lineNo) = body.map (·.step.lineNo)) :
    Screened files seen body' found where
  screened := by
    intro e' he'
    rcases hbody e' he' with he | ⟨e, he, rfl⟩
    · exact h.screened e' he
    · rcases hf with ⟨table, rfl⟩ | ⟨cells, rfl⟩
      · exact (h.screened e he).addInlineTable table
      · exact (h.screened e he).addInlineRow cells
  reported := hlines ▸ h.reported
  kept := hlines ▸ h.kept

/-- A step that is read on a later line than the others is screened. -/
theorem add (h : Screened files seen body found) (hnew : ∀ u ∈ seen, u.lineNo < t.lineNo)
    {formals : Frame} {signature : Text} {own : Step} (hreads : t.Reads files formals own)
    (hmore : linesReported .e303 more = if own.value = signature then [t.lineNo] else []) :
    Screened files (seen ++ [t]) (body ++ [⟨formals, signature, own⟩]) (found ++ more) := by
  have hother : ∀ u ∈ seen, u.lineNo ∉ linesReported .e303 more := by
    intro u hu hin
    have := hnew u hu
    rw [hmore] at hin
    split at hin <;> simp at hin
    omega
  -- what is reported so far is on lines of tokens, all of them above the new one
  have hfresh : t.lineNo ∉ linesReported .e303 found := by
    intro hin
    obtain ⟨e, he, heq⟩ := List.mem_map.1 (h.reported hin)
    obtain ⟨u, hu, hline⟩ := (h.screened e he).exists_lineNo
    have := hnew u hu
    omega
  refine ⟨?screened, ?reported, ?kept⟩
  case screened =>
    refine List.forall_mem_append.2 ⟨fun e he =>
      (h.screened e he).mono (List.subset_append_left _ _) hother, ?_⟩
    refine List.forall_mem_singleton.2 ⟨t, by simp, own, [], hreads, rfl, ?_⟩
    rw [linesReported_append, List.mem_append, or_iff_right hfresh, hmore]
    split
    case isTrue hself => simpa using hself
    case isFalse hself => simpa using hself
  case reported =>
    rw [linesReported_append, hmore, List.map_append]
    refine List.append_subset.2 ⟨List.subset_append_of_subset_left _ h.reported, ?_⟩
    refine List.subset_append_of_subset_right _ fun n hn => ?_
    split at hn
    · simpa [hreads.lineNo] using hn
    · cases hn
  case kept =>
    intro u hu hstep
    rw [linesReported_append, List.mem_append, List.map_append, List.mem_append]
    rcases List.mem_append.1 hu with hu | hu
    · exact (h.kept u hu hstep).imp .inl .inl
    · obtain rfl := List.mem_singleton.1 hu
      exact .inr (.inr (by simp [hreads.lineNo]))

end Screened

/-! ## The builder -/

namespace Concept
variable {c : Concept}

theorem bodySteps_addStep (c : Concept) (s : Step) :
    (c.addItem (.step s)).bodySteps = c.bodySteps ++ [⟨c.formals, c.signature, s⟩] := by
  rw [bodySteps, steps_addStep, List.map_append]
  rfl

theorem bodySteps_addComment (c : Concept) (comment : Comment) :
    (c.addItem (.comment comment)).bodySteps = c.bodySteps := by
  rw [bodySteps, steps_addComment]
  rfl

theorem mem_bodySteps_mapLatestStep {f : Step → Step} {e : BodyStep}
    (h : e ∈ (c.mapLatestStep f).bodySteps) :
    e ∈ c.bodySteps ∨ ∃ e' ∈ c.bodySteps, e = { e' with step := f e'.step } := by
  obtain ⟨s, hs, rfl⟩ := List.mem_map.1 h
  rcases mem_steps_mapLatestStep hs with hs | ⟨s', hs', rfl⟩
  · exact .inl (List.mem_map.2 ⟨s, hs, rfl⟩)
  · exact .inr ⟨⟨c.formals, c.signature, s'⟩, List.mem_map_of_mem hs', rfl⟩

theorem lineNo_bodySteps_mapLatestStep {f : Step → Step} (hf : ∀ s, (f s).lineNo = s.lineNo) :
    (c.mapLatestStep f).bodySteps.map (·.step.lineNo) = c.bodySteps.map (·.step.lineNo) := by
  have hlines : ∀ c : Concept, c.bodySteps.map (·.step.lineNo) =
      (c.items.map fun i => i.step?.map Step.lineNo).filterMap id := by
    intro c
    simp only [bodySteps, steps, List.filterMap_map, List.map_filterMap, Option.map_map]
    rfl
  rw [hlines, hlines]
  refine congrArg (List.filterMap id) (map_updateLast fun i i' h => ?_)
  cases i <;> cases h
  exact congrArg some (hf _)

end Concept

namespace ConceptBuilder

section
variable {files : FileSource} {seen : List Token} {b b' : ConceptBuilder} {t : Token}

theorem bodySteps_of_some {c : Concept} {tok : Token} (h : b.current = some (c, tok)) :
    b.bodySteps = b.finished.flatMap Concept.bodySteps ++ c.bodySteps := by
  rw [bodySteps, opened_of_some h, List.flatMap_append, List.flatMap_singleton]

theorem bodySteps_of_none (h : b.current = none) :
    b.bodySteps = b.finished.flatMap Concept.bodySteps := by
  rw [bodySteps, opened_of_none h]

/-- What changes only the open concept, and appends to its steps. -/
theorem bodySteps_of_edited {c c' : Concept} {tok : Token} {more : List BodyStep}
    (hcur : b.current = some (c, tok)) (hfin : b'.finished = b.finished)
    (hcur' : b'.current = some (c', tok)) (hc : c'.bodySteps = c.bodySteps ++ more) :
    b'.bodySteps = b.bodySteps ++ more := by
  rw [bodySteps_of_some hcur, bodySteps_of_some hcur', hfin, hc, List.append_assoc]

theorem flatMap_bodySteps_finish (b : ConceptBuilder) :
    b.finish.finished.flatMap Concept.bodySteps = b.bodySteps := by
  have hends := b.ends_finish
  generalize b.finish = b' at hends
  cases hends with
  | idle hcur => exact (bodySteps_of_none hcur).symm
  | drops hcur hnil =>
    rw [bodySteps_of_some hcur, Concept.bodySteps, hnil]
    exact (List.append_nil _).symm
  | keeps hcur hne => rw [bodySteps_of_some hcur, List.flatMap_append, List.flatMap_singleton]

/-- Closing the open concept, and opening one without steps, leaves the same steps. -/
theorem bodySteps_of_closed (hfin : b'.finished = b.finish.finished)
    (hcur : ∀ c tok, b'.current = some (c, tok) → c.bodySteps = []) :
    b'.bodySteps = b.bodySteps := by
  rw [← flatMap_bodySteps_finish b, ← hfin]
  cases h : b'.current with
  | none => exact bodySteps_of_none h
  | some ct => rw [bodySteps_of_some h, hcur ct.1 ct.2 h, List.append_nil]

theorem diagnostics_finish (b : ConceptBuilder) :
    ∃ more, b.finish.diagnostics = b.diagnostics ++ more ∧ linesReported .e303 more = [] := by
  have hends := b.ends_finish
  generalize b.finish = b' at hends
  cases hends with
  | idle hcur => exact ⟨[], (List.append_nil _).symm, rfl⟩
  | drops hcur hnil => exact ⟨_, rfl, linesReported_problem_of_ne _ (by simp [Problem.code])⟩
  | keeps hcur hne => exact ⟨[], (List.append_nil _).symm, rfl⟩

/-- Tables and rows of the last step leave the others as they are. -/
theorem screened_mapLatestStep {found : List Diagnostic} {c : Concept} {tok : Token}
    {f : Step → Step} (h : Screened files seen b.bodySteps found)
    (hcur : b.current = some (c, tok)) (hfin : b'.finished = b.finished)
    (hcur' : b'.current = some (c.mapLatestStep f, tok))
    (hf : (∃ table, f = (·.addInlineTable table)) ∨ ∃ cells, f = (·.addInlineRow cells)) :
    Screened files seen b'.bodySteps found := by
  have hline : ∀ s, (f s).lineNo = s.lineNo := by
    rcases hf with ⟨table, rfl⟩ | ⟨cells, rfl⟩
    · exact fun s => rfl
    · exact fun s => Step.lineNo_addInlineRow s cells
  rw [bodySteps_of_some hcur] at h
  rw [bodySteps_of_some hcur', hfin]
  refine h.change hf (fun e he => ?_) ?_
  · simp only [List.mem_append] at he ⊢
    rcases he with he | he
    · exact .inl (.inl he)
    · rcases Concept.mem_bodySteps_mapLatestStep he with he | ⟨e', he', heq⟩
      · exact .inl (.inr he)
      · exact .inr ⟨e', .inr he', heq⟩
  · rw [List.map_append, List.map_append, Concept.lineNo_bodySteps_mapLatestStep hline]

/-- **Each token leaves the steps screened.** -/
theorem screened_takes (h : Screened files seen b.bodySteps b.diagnostics)
    (hnew : ∀ u ∈ seen, u.lineNo < t.lineNo) (htakes : Takes files b t b') :
    Screened files (seen ++ [t]) b'.bodySteps b'.diagnostics := by
  cases htakes with
  | opens hc hscan hdyn =>
    have hstep := Token.stepless_of_content hc fun _ _ _ h => by cases h
    obtain ⟨more, hdiag, hmore⟩ := diagnostics_finish b
    exact ((h.report hmore).see (.inl hstep)).of_eq
      (bodySteps_of_closed rfl fun c tok hcur => by cases hcur; rfl) hdiag
  | @closes kind title p hc herror hcode =>
    have hstep := Token.stepless_of_content hc fun _ _ _ h => by cases h
    obtain ⟨more, hdiag, hmore⟩ := diagnostics_finish b
    have hreport := (h.report hmore).report (linesReported_problem_of_ne t hcode)
    refine (hreport.see (.inl hstep)).of_eq
      (bodySteps_of_closed rfl fun c tok hcur => ?_) ?_
    · cases (finish_spec b).1.symm.trans hcur
    · rw [← hdiag]
      rfl
  | @adds c tok value args block hc hcur =>
    refine (h.add hnew ⟨value, args, block, hc, rfl⟩ ?_).of_eq
      (bodySteps_of_edited hcur rfl rfl (Concept.bodySteps_addStep _ _)) rfl
    rw [linesReported_append,
      linesReported_eq_nil (t.code_readStep c.formals files value args block), List.nil_append]
    split
    · exact linesReported_problem t rfl
    · rfl
  | strayStep hcur =>
    have hline : linesReported .e301 [t.problem .strayStep] = [t.lineNo] :=
      linesReported_problem t rfl
    refine (h.report (linesReported_problem_of_ne t (by simp [Problem.code]))).see (.inr ?_)
    rw [linesReported_append, hline]
    exact List.mem_append_right _ (List.mem_singleton_self _)
  | strayTable hstep =>
    exact (h.report (linesReported_problem_of_ne t (by simp [Problem.code]))).see (.inl hstep)
  | attaches hc hcur =>
    have hstep := Token.stepless_of_content hc fun _ _ _ h => by cases h
    exact screened_mapLatestStep (h.see (.inl hstep)) hcur rfl rfl (.inl ⟨_, rfl⟩)
  | @fills c tok row cells hc hcur hfocus =>
    have hreport := h.report (linesReported_eq_nil (t.code_readRow c.formals files cells))
    have hstep := Token.stepless_of_content hc fun _ _ _ h => by cases h
    exact screened_mapLatestStep (hreport.see (.inl hstep)) hcur rfl rfl (.inr ⟨_, rfl⟩)
  | passes hstep => exact h.see (.inl hstep)
  | keeps hstep hcur =>
    refine (h.see (.inl hstep)).of_eq ?_ rfl
    rw [bodySteps_of_some rfl, bodySteps_of_some hcur, Concept.bodySteps_addComment]
  | waits hstep hcur => exact h.see (.inl hstep)

/-- After all tokens the steps are screened, whatever was reported. -/
theorem screened_run {tokens : List Token} (hlines : tokens.Pairwise fun t u => t.lineNo < u.lineNo)
    (files : FileSource) (fileName : Text) :
    Screened files tokens ((run files fileName tokens).finished.flatMap Concept.bodySteps)
      (run files fileName tokens).diagnostics := by
  have hall := takes_induction files tokens (b := start fileName)
    (motive := fun seen b => Screened files seen b.bodySteps b.diagnostics) (Screened.nil files)
    fun seen b t b' hpre h htakes => screened_takes h (fun u hu => ?_) htakes
  · obtain ⟨more, hdiag, hmore⟩ := diagnostics_finish (tokens.foldl (accept files) (start fileName))
    rw [run, flatMap_bodySteps_finish, hdiag]
    exact hall.report hmore
  · have hpair := hlines.sublist hpre.sublist
    exact (List.pairwise_append.1 hpair).2.2 u hu t (List.mem_singleton_self t)

end

end ConceptBuilder

/-! ## Self calls -/

namespace Concept

/-- **A step is reported exactly if it was read as a call of its concept.** Take any source that has
tokens, and what the builder has after them, which is what the source is accepted or refused with.
Each step token stands in a concept, or its line is reported as that of a step outside one, and
self calls are reported on lines of steps only. A step of a concept was read from the token of its
line, with the block below that but without the tables, and is reported exactly if the value it was
read with is the signature. This is the value that it has in the end, unless there are tables. Then
the two values differ, and the report is right about the second one if, and only if, neither of them
is the signature. -/
theorem selfCalls_of_tokenize {source : Text} {tokens : List Token}
    (htok : tokenize source = .ok tokens) (fileName : Text) (files : FileSource) :
    let b := ConceptBuilder.run files fileName tokens
    Concept.parse source fileName files = Parsed.settle b.finished b.diagnostics ∧
    (∀ t ∈ tokens, ¬ t.Stepless → t.lineNo ∈ linesReported .e301 b.diagnostics ∨
      ∃ c ∈ b.finished, ∃ s ∈ c.steps, s.lineNo = t.lineNo) ∧
    (∀ n ∈ linesReported .e303 b.diagnostics, ∃ c ∈ b.finished, ∃ s ∈ c.steps, s.lineNo = n) ∧
    ∀ c ∈ b.finished, ∀ s ∈ c.steps, ∃ t ∈ tokens, ∃ (own : Step) (tables : List Table),
      t.Reads files c.formals own ∧ t.lineNo = s.lineNo ∧
      s = tables.foldl Step.addInlineTable own ∧
      (s.lineNo ∈ linesReported .e303 b.diagnostics ↔ own.value = c.signature) ∧
      ((s.lineNo ∈ linesReported .e303 b.diagnostics ↔ s.value = c.signature) ↔
        (tables ≠ [] → own.value ≠ c.signature ∧ s.value ≠ c.signature)) := by
  intro b
  have hscreened : Screened files tokens (b.finished.flatMap bodySteps) b.diagnostics :=
    ConceptBuilder.screened_run (Token.pairwise_lineNo_of_tokenize htok) files fileName
  have hlines : ∀ n, n ∈ (b.finished.flatMap bodySteps).map (·.step.lineNo) ↔
      ∃ c ∈ b.finished, ∃ s ∈ c.steps, s.lineNo = n := by
    simp [bodySteps, and_assoc]
  refine ⟨?_, fun t ht hstep => ?_, fun n hn => ?_, fun c hc s hs => ?_⟩
  · rw [Concept.parse, htok]
    rfl
  · exact (hscreened.kept t ht hstep).imp_right (hlines t.lineNo).1
  · exact (hlines n).1 (hscreened.reported hn)
  · obtain ⟨t, ht, own, tables, hreads, hstep, hcalls⟩ :=
      hscreened.screened ⟨c.formals, c.signature, s⟩
        (List.mem_flatMap.2 ⟨c, hc, List.mem_map_of_mem hs⟩)
    have hfold : s = tables.foldl Step.addInlineTable own := hstep
    have hline : t.lineNo = s.lineNo := by
      rw [hfold, Step.lineNo_foldl_addInlineTable, hreads.lineNo]
    have hiff : s.lineNo ∈ linesReported .e303 b.diagnostics ↔ own.value = c.signature :=
      hline ▸ hcalls
    refine ⟨t, ht, own, tables, hreads, hline, hfold, hiff, ?_⟩
    rw [hiff]
    rcases eq_or_ne tables [] with rfl | hne
    · simp [hfold]
    · have hother : s.value ≠ own.value := hfold ▸ Step.value_foldl_ne hne
      refine ⟨fun h _ => ?_, fun h => ?_⟩
      · have hown : own.value ≠ c.signature := fun heq => hother ((h.1 heq).trans heq.symm)
        exact ⟨hown, mt h.2 hown⟩
      · exact ⟨fun heq => absurd heq (h hne).1, fun heq => absurd heq (h hne).2⟩

/-- A concept that calls itself with a literal, with a table and with a block. -/
def echoSource : Text :=
  "# echo <word>\n* echo \"hello\"\n* echo\n|a|\n|1|\n* echo\n\"\"\"\nhello\n\"\"\"\n".toList

/-- The call with the table is not reported. -/
theorem selfCalls_of_tokenize_echo :
    ∃ tokens, tokenize echoSource = .ok tokens ∧
      linesReported .e303 (ConceptBuilder.run (.ofEntries []) [] tokens).diagnostics = [2, 6] ∧
      ∀ c ∈ (ConceptBuilder.run (.ofEntries []) [] tokens).finished, ∀ s ∈ c.steps,
        ∃ t ∈ tokens, ∃ (own : Step) (tables : List Table),
          t.Reads (.ofEntries []) c.formals own ∧ t.lineNo = s.lineNo ∧
          s = tables.foldl Step.addInlineTable own ∧
          (s.lineNo ∈ [2, 6] ↔ own.value = c.signature) := by
  have hok : (tokenize echoSource).toOption.map (fun tokens =>
      linesReported .e303 (ConceptBuilder.run (.ofEntries []) [] tokens).diagnostics) =
      some [2, 6] := by decide +kernel
  obtain ⟨tokens, htok, hlines⟩ := exists_ok_of_map hok
  refine ⟨tokens, htok, hlines, fun c hc s hs => ?_⟩
  obtain ⟨t, ht, own, tables, hreads, hline, hfold, hiff, -⟩ :=
    (selfCalls_of_tokenize htok [] (.ofEntries [])).2.2.2 c hc s hs
  exact ⟨t, ht, own, tables, hreads, hline, hfold, hlines ▸ hiff⟩

/-- A concept that calls itself with a table, which is its only argument. -/
def calledSource : Text := "# greet <name>\n* greet\n|a|\n|1|\n".toList

/-- A concept without parameters, and a step that is written alike but has a table. -/
def alikeSource : Text := "# greet\n* greet\n|a|\n|1|\n".toList

/-- **The final value does not decide.** A call of the concept with a table is accepted, and a step
that has another value than the signature, because of its table, is reported. -/
theorem not_selfCall_iff_value :
    (∃ parsed, Concept.parse calledSource [] (.ofEntries []) = .ok parsed ∧
      ∃ c ∈ parsed.document, ∃ s ∈ c.steps, s.value = c.signature) ∧
    ∃ tokens, tokenize alikeSource = .ok tokens ∧
      ∃ c ∈ (ConceptBuilder.run (.ofEntries []) [] tokens).finished, ∃ s ∈ c.steps,
        s.value ≠ c.signature ∧ s.lineNo ∈ linesReported .e303
          (ConceptBuilder.run (.ofEntries []) [] tokens).diagnostics := by
  have hcalled : ((Concept.parse calledSource [] (.ofEntries [])).toOption.any fun parsed =>
      decide (∃ c ∈ parsed.document, ∃ s ∈ c.steps, s.value = c.signature)) = true := by
    decide +kernel
  have halike : ((tokenize alikeSource).toOption.any fun tokens =>
      decide (∃ c ∈ (ConceptBuilder.run (.ofEntries []) [] tokens).finished, ∃ s ∈ c.steps,
        s.value ≠ c.signature ∧ s.lineNo ∈ linesReported .e303
          (ConceptBuilder.run (.ofEntries []) [] tokens).diagnostics)) = true := by
    decide +kernel
  obtain ⟨parsed, hparse, hcall⟩ := exists_ok_of_any hcalled
  obtain ⟨tokens, htok, hreported⟩ := exists_ok_of_any halike
  exact ⟨⟨parsed, hparse, of_decide_eq_true hcall⟩, tokens, htok, of_decide_eq_true hreported⟩

end Concept

end ScenarioBook
