import ScenarioBook.Line
import ScenarioBook.Proofs.Text.Parts

/-!
# Where lines stand

A line of a source is what stands between two newlines, less the carriage return in front of the
second one. `Line.StandsIn` says so without the functions that cut a source: as many newlines stand
before the line as its number says, it starts behind one of them at its byte offset, and it holds
none (`Line.standsIn_of_mem`). Lines are numbered in order from one (`Line.map_no_ofSource`), and
each ends before the next one starts (`Line.pairwise_ofSource`).
-/

set_option autoImplicit false

namespace ScenarioBook

/-! ## Cutting at newlines -/

namespace Text

theorem rawLines_append_newline {body : Text} (h : '\n' ∉ body) (r : Text) :
    rawLines (body ++ '\n' :: r) = (body ++ ['\n']) :: rawLines r := by
  induction body with
  | nil => simp [rawLines]
  | cons c body ih =>
    simp only [List.mem_cons, not_or] at h
    rw [List.cons_append, rawLines, if_neg (Ne.symm h.1), ih h.2]
    rfl

theorem rawLines_of_not_mem {t : Text} (h : '\n' ∉ t) (hne : t ≠ []) : rawLines t = [t] := by
  induction t with
  | nil => exact absurd rfl hne
  | cons c t ih =>
    simp only [List.mem_cons, not_or] at h
    rw [rawLines, if_neg (Ne.symm h.1)]
    cases t with
    | nil => rfl
    | cons d t => rw [ih h.2 (List.cons_ne_nil _ _)]

/-- A source is empty, a single line without a newline, or a line with its newline and a source
behind it. -/
theorem lines_induction {motive : Text → Prop} (nil : motive [])
    (last : ∀ t, t ≠ [] → '\n' ∉ t → motive t)
    (line : ∀ body r, '\n' ∉ body → motive r → motive (body ++ '\n' :: r)) (t : Text) :
    motive t := by
  induction hn : t.length using Nat.strongRecOn generalizing t with
  | ind n ih =>
    by_cases h : '\n' ∈ t
    · obtain ⟨body, r, rfl, hbody⟩ := List.eq_append_cons_of_mem h
      refine line body r hbody (ih r.length ?_ r rfl)
      rw [← hn, List.length_append, List.length_cons]
      omega
    · cases t with
      | nil => exact nil
      | cons c t => exact last _ (List.cons_ne_nil _ _) h

theorem chop_concat (c : Char) (t : Text) : (t ++ [c]).chop c = t := by
  rw [chop, List.isSuffixOf?_eq_some_iff_append_eq.2 rfl]
  rfl

theorem chop_of_getLast? {c : Char} {t : Text} (h : t.getLast? ≠ some c) : t.chop c = t := by
  rw [chop]
  cases hd : [c].isSuffixOf? t with
  | none => rfl
  | some rest =>
    rw [← List.append_eq_of_isSuffixOf?_eq_some hd, List.getLast?_concat] at h
    exact absurd rfl h

theorem chop_of_not_mem {c : Char} {t : Text} (h : c ∉ t) : t.chop c = t :=
  chop_of_getLast? fun hlast => h (List.mem_of_getLast? hlast)

/-- A text is what chopping leaves, with the character behind it if the text ends with it. -/
theorem append_of_chop (c : Char) (t : Text) :
    (t.chop c).getLast? ≠ some c ∧ t = t.chop c ∨ t = t.chop c ++ [c] := by
  by_cases h : t.getLast? = some c
  · obtain ⟨rest, rfl⟩ := List.getLast?_eq_some_iff.1 h
    exact .inr (by rw [chop_concat])
  · exact .inl (by rw [chop_of_getLast? h]; exact ⟨h, rfl⟩)

/-- The byte offset is the end of some characters that the text starts with. -/
def Boundary (t : Text) (offset : Nat) : Prop :=
  ∃ start : Text, start <+: t ∧ start.utf8Size = offset

end Text

/-- The span lies in the source and starts and ends between characters. -/
structure Span.Within (s : Span) (source : Text) : Prop where
  start_le_stop : s.start ≤ s.stop
  start : source.Boundary s.start
  stop : source.Boundary s.stop

namespace Line

theorem dropTerminator_newline {body : Text} :
    dropTerminator (body ++ ['\n']) = body.chop '\r' := by
  rw [dropTerminator, Text.chop_concat]

theorem dropTerminator_last {t : Text} (h : '\n' ∉ t) : dropTerminator t = t.chop '\r' := by
  rw [dropTerminator, Text.chop_of_not_mem h]

/-! ## The place of a line -/

/-- The source is what stands before the line, the line, its terminator and what stands behind
it. The terminator is a newline, or nothing at the end of the source, with a carriage return in
front if there is one. -/
structure Splits (l : Line) (source before terminator behind : Text) : Prop where
  whole : source = before ++ l.text ++ terminator ++ behind
  start : l.start = before.utf8Size
  no : l.no = before.count '\n' + 1
  opens : before = [] ∨ before.getLast? = some '\n'
  single : '\n' ∉ l.text
  closes : ∃ ending, (ending = ['\n'] ∨ behind = [] ∧ ending = []) ∧
    (terminator = '\r' :: ending ∨ terminator = ending ∧ l.text.getLast? ≠ some '\r')

/-- The line is a line of the source, with its number and its byte offset. -/
def StandsIn (l : Line) (source : Text) : Prop :=
  ∃ before terminator behind, l.Splits source before terminator behind

section
variable {l : Line} {source : Text}

theorem StandsIn.isInfix (h : l.StandsIn source) : l.text <:+: source := by
  obtain ⟨before, terminator, behind, hs⟩ := h
  exact ⟨before, terminator ++ behind, by rw [hs.whole, List.append_assoc (before ++ l.text)]⟩

theorem StandsIn.newline_not_mem (h : l.StandsIn source) : '\n' ∉ l.text := by
  obtain ⟨before, terminator, behind, hs⟩ := h
  exact hs.single

theorem StandsIn.boundary_start (h : l.StandsIn source) : source.Boundary l.start := by
  obtain ⟨before, terminator, behind, hs⟩ := h
  refine ⟨before, ⟨l.text ++ terminator ++ behind, ?_⟩, hs.start.symm⟩
  simp only [hs.whole, List.append_assoc]

theorem StandsIn.boundary_stop (h : l.StandsIn source) : source.Boundary l.span.stop := by
  obtain ⟨before, terminator, behind, hs⟩ := h
  refine ⟨before ++ l.text, ⟨terminator ++ behind, ?_⟩, ?_⟩
  · simp only [hs.whole, List.append_assoc]
  · rw [Text.utf8Size_append, span, hs.start]

/-- Nothing but a newline, a carriage return before it or the end of the source closes a line. -/
theorem splits_chop {before body : Text} (ending behind : Text) (hbody : '\n' ∉ body)
    (hopens : before = [] ∨ before.getLast? = some '\n')
    (hending : ending = ['\n'] ∨ behind = [] ∧ ending = []) :
    StandsIn ⟨before.count '\n' + 1, before.utf8Size, body.chop '\r'⟩
      (before ++ body ++ ending ++ behind) := by
  have hsingle : '\n' ∉ body.chop '\r' := fun hin =>
    hbody ((Text.chop_isPrefix '\r' body).subset hin)
  have hchop := Text.append_of_chop '\r' body
  generalize body.chop '\r' = text at hchop hsingle ⊢
  rcases hchop with ⟨hlast, rfl⟩ | rfl
  · exact ⟨before, ending, behind, rfl, rfl, rfl, hopens, hsingle, ending, hending,
      .inr ⟨rfl, hlast⟩⟩
  · refine ⟨before, '\r' :: ending, behind, ?_, rfl, rfl, hopens, hsingle, ending, hending,
      .inl rfl⟩
    simp only [List.append_assoc, List.cons_append, List.nil_append]

/-- Cutting what is left of a source gives lines of the source. -/
theorem standsIn_of_mem_place (before rest : Text)
    (hopens : before = [] ∨ before.getLast? = some '\n')
    (h : l ∈ place (before.count '\n' + 1) before.utf8Size rest.rawLines) :
    l.StandsIn (before ++ rest) := by
  induction rest using Text.lines_induction generalizing before with
  | nil => cases h
  | last rest hne hbody =>
    rw [Text.rawLines_of_not_mem hbody hne, place, place, List.mem_singleton,
      dropTerminator_last hbody] at h
    rw [h]
    simpa using splits_chop [] [] hbody hopens (.inr ⟨rfl, rfl⟩)
  | line body r hbody ih =>
    rw [Text.rawLines_append_newline hbody, place, List.mem_cons, dropTerminator_newline] at h
    rcases h with rfl | h
    · simpa using splits_chop ['\n'] r hbody hopens (.inl rfl)
    · -- the lines behind the newline start where the source before them ends
      have hcount : (before ++ body ++ ['\n']).count '\n' = before.count '\n' + 1 := by
        simp [List.count_eq_zero_of_not_mem hbody]
      have hsize : (before ++ body ++ ['\n']).utf8Size =
          before.utf8Size + (body ++ ['\n']).utf8Size := by
        rw [List.append_assoc, Text.utf8Size_append]
      have hrest := ih (before ++ body ++ ['\n']) (.inr List.getLast?_concat)
        (by rwa [hcount, hsize])
      simpa using hrest

/-- **A line of a source stands in it.** -/
theorem standsIn_of_mem (h : l ∈ ofSource source) : l.StandsIn source :=
  standsIn_of_mem_place [] source (.inl rfl) h

end

/-! ## The order of lines -/

theorem map_no_place (no start : Nat) (raws : List Text) :
    (place no start raws).map Line.no = List.range' no raws.length := by
  induction raws generalizing no start with
  | nil => rfl
  | cons raw raws ih => rw [place, List.map_cons, ih, List.length_cons, List.range'_succ]

theorem length_place (no start : Nat) (raws : List Text) :
    (place no start raws).length = raws.length := by
  simpa using congrArg List.length (map_no_place no start raws)

/-- **Lines are numbered from one.** -/
theorem map_no_ofSource (source : Text) :
    (ofSource source).map Line.no = List.range' 1 (ofSource source).length := by
  rw [ofSource, map_no_place, length_place]

theorem start_le_of_mem_place {no start : Nat} {raws : List Text} {l : Line}
    (h : l ∈ place no start raws) : start ≤ l.start := by
  induction raws generalizing no start with
  | nil => cases h
  | cons raw raws ih =>
    rcases List.mem_cons.1 h with rfl | h
    · exact Nat.le_refl _
    · exact Nat.le_trans (Nat.le_add_right _ _) (ih h)

theorem utf8Size_chop_le (c : Char) (t : Text) : (t.chop c).utf8Size ≤ t.utf8Size := by
  obtain ⟨r, hr⟩ := t.chop_isPrefix c
  have hsize := congrArg Text.utf8Size hr
  rw [Text.utf8Size_append] at hsize
  omega

theorem pairwise_place (no start : Nat) (source : Text) :
    (place no start source.rawLines).Pairwise fun a b => a.span.stop < b.start := by
  induction source using Text.lines_induction generalizing no start with
  | nil => exact .nil
  | last t hne hbody =>
    rw [Text.rawLines_of_not_mem hbody hne]
    exact List.pairwise_singleton _ _
  | line body r hbody ih =>
    rw [Text.rawLines_append_newline hbody, place, List.pairwise_cons, dropTerminator_newline]
    refine ⟨fun l hl => ?_, ih _ _⟩
    -- the newline stands between the line and the next one
    have hsize := utf8Size_chop_le '\r' body
    have hnext := start_le_of_mem_place hl
    have hnewline : Text.utf8Size ['\n'] = 1 := rfl
    rw [Text.utf8Size_append, hnewline] at hnext
    simp only [span]
    omega

/-- **A line ends before the next one starts.** -/
theorem pairwise_ofSource (source : Text) :
    (ofSource source).Pairwise fun a b => a.span.stop < b.start := pairwise_place 1 0 source

theorem span_start_le_stop (l : Line) : l.span.start ≤ l.span.stop := Nat.le_add_right _ _

end Line

end ScenarioBook
