import ScenarioBook.Token.Reading

/-!
# What is reported about a token

All that reading a token reports is a problem with that token (`Token.Reports`): with an argument of
a step or a block below it, or with a cell of a row.
-/

set_option autoImplicit false

namespace ScenarioBook

namespace Token

/-- All diagnostics are problems with the token. -/
def Reports (t : Token) (found : List Diagnostic) : Prop := ∀ d ∈ found, ∃ p, d = t.problem p

section
variable {t : Token} {frame : Frame} {files : FileSource}

theorem reports_nil : t.Reports [] := fun _ hd => by cases hd

theorem reports_problem (p : Problem) : t.Reports [t.problem p] :=
  List.forall_mem_singleton.2 ⟨p, rfl⟩

theorem Reports.append {found more : List Diagnostic} (h : t.Reports found)
    (hmore : t.Reports more) : t.Reports (found ++ more) := List.forall_mem_append.2 ⟨h, hmore⟩

theorem reports_flatMap {α : Type} {f : α → List Diagnostic} {as : List α}
    (h : ∀ a ∈ as, t.Reports (f a)) : t.Reports (as.flatMap f) := by
  intro d hd
  obtain ⟨a, ha, hd⟩ := List.mem_flatMap.1 hd
  exact h a ha d hd

theorem reports_ite {P : Prop} [Decidable P] (p : Problem) :
    t.Reports (if P then [] else [t.problem p]) := by
  split
  · exact reports_nil
  · exact reports_problem p

theorem reports_readArg (raw : RawArg) : t.Reports (t.readArg frame files raw).2 := by
  unfold readArg
  split
  · exact reports_nil
  · exact reports_ite _
  · split
    · exact reports_nil
    · exact reports_problem _

theorem reports_readStep (value : Text) (raws : List RawArg) (block : Option Text) :
    t.Reports (t.readStep frame files value raws block).2 := by
  have hargs : t.Reports ((raws.map (t.readArg frame files)).flatMap (·.2)) :=
    reports_flatMap <| List.forall_mem_map.2 fun raw _ => reports_readArg raw
  unfold readStep
  cases block with
  | none => exact hargs
  | some contents =>
    simp only
    split
    · exact hargs
    · exact hargs.append (reports_problem _)

theorem reports_readFileCell? {param : Text} {found : Cell × List Diagnostic}
    (h : t.readFileCell? files param = some found) : t.Reports found.2 := by
  unfold readFileCell? at h
  split at h
  · split at h <;> cases h
    · exact reports_nil
    · exact reports_problem _
  · cases h

theorem reports_readCell (cell : Text) : t.Reports (t.readCell frame files cell).2 := by
  unfold readCell
  split
  · exact reports_nil
  · split
    · next found => exact reports_readFileCell? found
    · exact reports_ite _

theorem reports_readDataCell (cell : Text) : t.Reports (t.readDataCell files cell).2 := by
  unfold readDataCell
  split
  · next found =>
    obtain ⟨name, -, hfound⟩ := Option.bind_eq_some_iff.1 found
    exact reports_readFileCell? hfound
  · exact reports_nil

theorem reports_readRow (cells : List Text) : t.Reports (t.readRow frame files cells).2 :=
  reports_flatMap <| List.forall_mem_map.2 fun cell _ => reports_readCell cell

theorem reports_readDataRow (cells : List Text) : t.Reports (t.readDataRow files cells).2 :=
  reports_flatMap <| List.forall_mem_map.2 fun cell _ => reports_readDataCell cell

end

end Token

/-- Each diagnostic is a problem with one of the tokens. -/
def AboutTokens (tokens : List Token) (found : List Diagnostic) : Prop :=
  ∀ d ∈ found, ∃ t ∈ tokens, ∃ p, d = t.problem p

section
variable {tokens : List Token} {found more : List Diagnostic}

theorem aboutTokens_nil : AboutTokens tokens [] := fun _ hd => by cases hd

theorem AboutTokens.append (h : AboutTokens tokens found) (hmore : AboutTokens tokens more) :
    AboutTokens tokens (found ++ more) := List.forall_mem_append.2 ⟨h, hmore⟩

theorem AboutTokens.later (h : AboutTokens tokens found) (later : List Token) :
    AboutTokens (tokens ++ later) found := by
  intro d hd
  obtain ⟨t, ht, hp⟩ := h d hd
  exact ⟨t, List.mem_append_left _ ht, hp⟩

theorem Token.Reports.aboutTokens {t : Token} (h : t.Reports found) (ht : t ∈ tokens) :
    AboutTokens tokens found := fun d hd => ⟨t, ht, h d hd⟩

end

end ScenarioBook
