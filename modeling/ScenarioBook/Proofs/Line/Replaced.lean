import ScenarioBook.Proofs.Token.BlankLine
import ScenarioBook.Proofs.Token.Stretched

/-!
# Another text on one line

A line of a source stands between the lines in front of it and those behind it
(`Line.Splits.ofSource_eq`). When its text is replaced the other lines stay, and only the offsets of
those behind it change (`Line.Splits.ofSource_replaced`).
-/

set_option autoImplicit false

namespace ScenarioBook.Line

section
variable {l : Line} {source before terminator behind : Text}

/-- A line with its terminator is one raw line, and cutting it gives the line. -/
theorem Splits.rawLines_eq (h : l.Splits source before terminator behind) (hne : l.text ≠ []) :
    (l.text ++ terminator ++ behind).rawLines = (l.text ++ terminator) :: behind.rawLines ∧
      dropTerminator (l.text ++ terminator) = l.text := by
  obtain ⟨ending, hending, hterminator⟩ := h.closes
  -- the line with the carriage return that may stand behind it
  obtain ⟨body, hbody, hnil, hchop, hwhole⟩ : ∃ body : Text, '\n' ∉ body ∧ body ≠ [] ∧
      body.chop '\r' = l.text ∧ l.text ++ terminator = body ++ ending := by
    rcases hterminator with rfl | ⟨rfl, hlast⟩
    · exact ⟨l.text ++ ['\r'], by simpa using h.single, by simp, Text.chop_concat _ _, by simp⟩
    · exact ⟨l.text, h.single, hne, Text.chop_of_getLast? hlast, rfl⟩
  rw [hwhole]
  rcases hending with rfl | ⟨rfl, rfl⟩
  · rw [dropTerminator_newline, List.append_assoc]
    exact ⟨Text.rawLines_append_newline hbody behind, hchop⟩
  · rw [List.append_nil, List.append_nil, dropTerminator_last hbody]
    exact ⟨Text.rawLines_of_not_mem hbody hnil, hchop⟩

/-- **The lines of a source around one of them.** -/
theorem Splits.ofSource_eq (h : l.Splits source before terminator behind) (hne : l.text ≠ []) :
    ofSource source = ofSource before ++
      l :: place (l.no + 1) (l.start + (l.text ++ terminator).utf8Size) behind.rawLines := by
  obtain ⟨hraw, hdrop⟩ := h.rawLines_eq hne
  have hclosed : before.Closed := h.opens
  have hwhole : source = before ++ (l.text ++ terminator ++ behind) := by
    simp only [h.whole, List.append_assoc]
  have hplace : (⟨1 + before.rawLines.length, 0 + Text.utf8Size before.rawLines.flatten,
      l.text⟩ : Line) = l := by
    rw [hclosed.length_rawLines, Text.flatten_rawLines, Nat.zero_add, Nat.add_comm, ← h.no,
      ← h.start]
  have hno := congrArg Line.no hplace
  have hstart := congrArg Line.start hplace
  simp only at hno hstart
  rw [ofSource, hwhole, hclosed.rawLines_append, place_append, hraw, place, hdrop, hplace, hno,
    hstart]
  rfl

/-- With another text in its place, one that a line can have, the line still splits the source. -/
theorem Splits.replaced (h : l.Splits source before terminator behind) {text : Text}
    (hsingle : '\n' ∉ text) (hlast : text.getLast? ≠ some '\r') :
    Splits { l with text := text } (before ++ text ++ terminator ++ behind) before terminator
      behind where
  whole := rfl
  start := h.start
  no := h.no
  opens := h.opens
  single := hsingle
  closes := by
    obtain ⟨ending, hending, hterminator⟩ := h.closes
    refine ⟨ending, hending, ?_⟩
    rcases hterminator with heq | ⟨heq, -⟩
    · exact .inl heq
    · exact .inr ⟨heq, hlast⟩

/-- Lines at offset zero do not tell where they stood. -/
theorem place_stretched_zero (no start start' : Nat) (raws : List Text) :
    (place no start raws).map (stretched fun _ => 0) =
      (place no start' raws).map (stretched fun _ => 0) := by
  induction raws generalizing no start start' with
  | nil => rfl
  | cons raw raws ih => rw [place, place, List.map_cons, List.map_cons, ih]; rfl

/-- **Replacing a line moves those behind it** and changes no other. -/
theorem Splits.ofSource_replaced (h : l.Splits source before terminator behind) (hne : l.text ≠ [])
    (text : Text) (hsingle : '\n' ∉ text) (hlast : text.getLast? ≠ some '\r') (htext : text ≠ []) :
    ∃ front rest rest', ofSource source = front ++ l :: rest ∧
      ofSource (before ++ text ++ terminator ++ behind) =
        front ++ { l with text := text } :: rest' ∧
      rest'.map (stretched fun _ => 0) = rest.map (stretched fun _ => 0) :=
  ⟨_, _, _, h.ofSource_eq hne, (h.replaced hsingle hlast).ofSource_eq htext,
    place_stretched_zero _ _ _ _⟩

end

end ScenarioBook.Line
