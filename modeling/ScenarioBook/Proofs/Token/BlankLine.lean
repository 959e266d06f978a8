import ScenarioBook.Proofs.Line.Placed
import ScenarioBook.Proofs.Token.Moved

/-!
# A blank line separates

A source whose last line is ended by a newline, a blank line and any further text: the lines of the
whole are the lines of the two parts with the blank one between them (`Line.ofSource_append_blank`).
A blank line is no fence, so the first part is read as if it ended there (`Lexer.run_append_blank`);
it leaves a comment without prose, so the second part is read as a source of its own, further down
(`Lexer.Behind.run`). Hence the tokens of the whole are those of the parts with the blank comment
between them, and the second part alone decides what is refused (`tokenize_append_blank`).
-/

set_option autoImplicit false

namespace ScenarioBook

/-! ## Lines of two parts -/

namespace Text

/-- No line of the text is left open. -/
def Closed (t : Text) : Prop := t = [] ∨ t.getLast? = some '\n'

theorem Closed.of_append_newline {body r : Text} (h : Closed (body ++ '\n' :: r)) : Closed r := by
  rcases h with h | h
  · exact absurd h (by simp)
  · cases r with
    | nil => exact .inl rfl
    | cons c r =>
      exact .inr (by simpa [List.getLast?_append, List.getLast?_cons] using h)

theorem not_closed_of_not_mem {t : Text} (hne : t ≠ []) (h : '\n' ∉ t) : ¬ Closed t := by
  rintro (rfl | hlast)
  · exact hne rfl
  · exact h (List.mem_of_getLast? hlast)

/-- The lines of the first part come first. -/
theorem Closed.rawLines_append {t : Text} (h : t.Closed) (r : Text) :
    rawLines (t ++ r) = rawLines t ++ rawLines r := by
  induction t using lines_induction with
  | nil => rfl
  | last t hne hbody => exact absurd h (not_closed_of_not_mem hne hbody)
  | line body rest hbody ih =>
    rw [List.append_assoc, List.cons_append, rawLines_append_newline hbody,
      rawLines_append_newline hbody, ih h.of_append_newline, List.cons_append]

/-- There is a newline for each line. -/
theorem Closed.length_rawLines {t : Text} (h : t.Closed) :
    (rawLines t).length = t.count '\n' := by
  induction t using lines_induction with
  | nil => rfl
  | last t hne hbody => exact absurd h (not_closed_of_not_mem hne hbody)
  | line body rest hbody ih =>
    rw [rawLines_append_newline hbody, List.length_cons, ih h.of_append_newline,
      List.count_append, List.count_cons_self, List.count_eq_zero_of_not_mem hbody, Nat.zero_add]

end Text

/-- What stands in front of the text behind a blank line. -/
def Offset.behindBlank (before : Text) : Offset := ⟨before.count '\n' + 1, before.utf8Size + 1⟩

/-- The blank line behind a text. -/
def Line.blankBehind (before : Text) : Line := ⟨before.count '\n' + 1, before.utf8Size, []⟩

/-- The token of the blank line behind a text. -/
def Token.blankBehind (before : Text) : Token :=
  ⟨before.count '\n' + 1, ⟨before.utf8Size, before.utf8Size⟩, [], .comment blankLine⟩

namespace Line

theorem place_append (no start : Nat) (raws raws' : List Text) :
    place no start (raws ++ raws') =
      place no start raws ++
        place (no + raws.length) (start + Text.utf8Size raws.flatten) raws' := by
  induction raws generalizing no start with
  | nil => simp [place]
  | cons raw raws ih =>
    rw [List.cons_append, place, place, ih, List.length_cons, List.flatten_cons,
      Text.utf8Size_append, List.cons_append]
    simp only [Nat.add_assoc, Nat.add_comm 1 raws.length]

theorem place_moved (o : Offset) (no start : Nat) (raws : List Text) :
    place (no + o.lines) (start + o.bytes) raws = (place no start raws).map (moved o) := by
  induction raws generalizing no start with
  | nil => rfl
  | cons raw raws ih =>
    have hno : no + o.lines + 1 = no + 1 + o.lines := Nat.add_right_comm ..
    have hstart : start + o.bytes + raw.utf8Size = start + raw.utf8Size + o.bytes :=
      Nat.add_right_comm ..
    rw [place, place, hno, hstart, ih]
    rfl

/-- **The lines of a source with a blank line in it.** -/
theorem ofSource_append_blank {before : Text} (h : before.Closed) (behind : Text) :
    ofSource (before ++ '\n' :: behind) =
      ofSource before ++
        blankBehind before :: (ofSource behind).map (moved (.behindBlank before)) := by
  have hblank : Text.rawLines ('\n' :: behind) = ['\n'] :: Text.rawLines behind :=
    Text.rawLines_append_newline List.not_mem_nil behind
  have hbehind : place (1 + before.count '\n' + 1) (0 + before.utf8Size + 1)
      (Text.rawLines behind) = (ofSource behind).map (moved (.behindBlank before)) := by
    rw [ofSource, ← place_moved, Nat.add_assoc, Nat.add_assoc]
    rfl
  have hline : (⟨1 + before.count '\n', 0 + before.utf8Size, dropTerminator ['\n']⟩ : Line) =
      blankBehind before := by
    simp only [blankBehind, mk.injEq]
    exact ⟨Nat.add_comm .., Nat.zero_add _, by decide⟩
  rw [ofSource, h.rawLines_append, hblank, place_append, Text.flatten_rawLines, h.length_rawLines,
    place, hline]
  exact congrArg (ofSource before ++ blankBehind before :: ·) hbehind

/-- Closing a block does not depend on the lines behind it. -/
theorem takeBlock_append_of_some {ls rest : List Line} {block : List Text}
    (h : takeBlock ls = some (block, rest)) (more : List Line) :
    takeBlock (ls ++ more) = some (block, rest ++ more) := by
  fun_induction takeBlock ls generalizing block rest with
  | case1 => cases h
  | case2 l ls hl =>
    cases h
    rw [List.cons_append, takeBlock, if_pos hl]
  | case3 l ls hl ih =>
    obtain ⟨⟨b, r⟩, hb, heq⟩ := Option.map_eq_some_iff.1 h
    cases heq
    rw [List.cons_append, takeBlock, if_neg hl, ih hb]
    rfl

end Line

/-! ## The first part -/

namespace Lexer

section
variable {lx : Lexer} {l m : Line} {ls more : List Line}

theorem HasError.consume (h : lx.HasError) (l : Line) (rest : List Line) :
    (lx.consume l rest).1.HasError := by
  rcases consume_takes lx l rest with herr | htakes
  · exact herr
  · rw [HasError, htakes.diagnostics]
    exact h

/-- An error is not taken back. -/
theorem HasError.run (h : lx.HasError) (ls : List Line) : (lx.run ls).HasError :=
  run_induction (motive := fun lx _ => lx.HasError) (fun _ l rest h => h.consume l rest) h

/-- What the lexer reports are errors. -/
theorem diagnostics_run (h : ¬ (lx.run ls).HasError) :
    (lx.run ls).diagnostics = lx.diagnostics := by
  have key : (lx.run ls).HasError ∨ (lx.run ls).diagnostics = lx.diagnostics := by
    refine run_induction
      (motive := fun lx' _ => lx'.HasError ∨ lx'.diagnostics = lx.diagnostics) ?_ (.inr rfl)
    intro lx' l rest hlx
    rcases hlx with herr | hlx
    · exact .inl (herr.consume l rest)
    · rcases consume_takes lx' l rest with herr | htakes
      · exact .inl herr
      · exact .inr (htakes.diagnostics.trans hlx)
  exact key.resolve_left h

/-- A line that is no fence is not looked at before its turn. -/
theorem consume_append (hm : m.isFence = false) (h : ¬ (lx.consume l ls).1.HasError) :
    lx.consume l (ls ++ m :: more) =
      ((lx.consume l ls).1, (lx.consume l ls).2 ++ m :: more) := by
  unfold Lexer.consume at h ⊢
  split
  case h_2 => rfl
  case h_1 text hs =>
    simp only [hs] at h
    unfold step at h ⊢
    cases hscan : StepText.scan text with
    | error fault => rfl
    | ok scanned =>
      cases ls with
      | nil => simp only [List.nil_append, hm, Bool.false_eq_true, if_false]
      | cons next after =>
        simp only [hscan] at h
        simp only [List.cons_append]
        by_cases hnext : next.isFence
        · simp only [if_pos hnext] at h ⊢
          cases hblock : Line.takeBlock after with
          | none =>
            rw [hblock] at h
            exact absurd (hasError_report lx next rfl) h
          | some found => rw [Line.takeBlock_append_of_some hblock]
        · simp only [if_neg hnext, List.cons_append]

/-- **Lines without an error are read the same with more lines behind**, if these do not start with
a fence. -/
theorem run_append (hm : m.isFence = false) (h : ¬ (lx.run ls).HasError) :
    lx.run (ls ++ m :: more) = (lx.run ls).run (m :: more) := by
  fun_induction Lexer.run lx ls with
  | case1 lx => rfl
  | case2 lx l rest ih =>
    have hfirst : ¬ (lx.consume l rest).1.HasError := fun herr => h (herr.run _)
    rw [List.cons_append, Lexer.run, consume_append hm hfirst]
    exact ih h

end

/-! ## Both parts -/

/-- A blank line leaves its comment. -/
theorem run_append_blank {lx : Lexer} {ls : List Line} (h : ¬ (lx.run ls).HasError) (before : Text)
    (more : List Line) :
    lx.run (ls ++ Line.blankBehind before :: more) =
      ((lx.run ls).push (Line.blankBehind before) (.comment blankLine) .comment).run more := by
  have hblank : (Line.blankBehind before).shape = .blank := rfl
  rw [run_append rfl h, Lexer.run, Lexer.consume, hblank]
  rfl

end Lexer

/-- **A blank line separates.** Behind a text that is read without an error and leaves no line open,
and a blank line, any text is read as a source of its own. The tokens of the whole are those of the
first text, the comment of the blank line, and those of the second text, further down by the lines
and bytes in front of it. The whole is refused exactly if the second text is, with its diagnostics,
moved in the same way. -/
theorem tokenize_append_blank {before : Text} {tokens : List Token} (hclosed : before.Closed)
    (h : tokenize before = .ok tokens) (behind : Text) :
    tokenize (before ++ '\n' :: behind) =
      match tokenize behind with
      | .ok more => .ok
          (tokens ++ .blankBehind before :: more.map (Token.moved (.behindBlank before)))
      | .error refusal => .error (refusal.moved (.behindBlank before)) := by
  simp only [tokenize] at h ⊢
  split at h
  case isTrue => cases h
  case isFalse hfirst =>
    cases h
    have hdiagnostics : (Lexer.start.run (Line.ofSource before)).diagnostics = [] :=
      Lexer.diagnostics_run hfirst
    rw [Line.ofSource_append_blank hclosed, Lexer.run_append_blank hfirst]
    generalize Lexer.start.run (Line.ofSource before) = first at hdiagnostics ⊢
    have hseen :
        ∀ t ∈ (first.tokens ++ [Token.blankBehind before]).getLast?, t.isProse = false := by
      intro t ht
      have hlast : some (Token.blankBehind before) = some t := List.getLast?_concat.symm.trans ht
      rw [← Option.some.inj hlast]
      rfl
    have hstart : Lexer.Behind (first.tokens ++ [.blankBehind before]) (.behindBlank before)
        .start (first.push (Line.blankBehind before) (.comment blankLine) .comment) :=
      ⟨(List.append_nil _).symm, hdiagnostics, .inr ⟨rfl, rfl, hseen⟩, fun hm => by cases hm⟩
    have hrun := hstart.run hseen (Line.ofSource behind)
    have herror : ∀ found : List Diagnostic,
        (found.map (Diagnostic.moved (.behindBlank before))).any (·.isError) =
          found.any (·.isError) := fun found => List.any_map
    rw [hrun.diagnostics, herror, hrun.tokens]
    split
    case isTrue => rfl
    case isFalse => simp only [List.append_assoc, List.singleton_append]

/-- A text that leaves a list of tags open. -/
def openTags : Text := "Café\ntags: a,\n".toList

/-- A ruled line and a table line. Without the blank line above them both would go on with the
tags. -/
def ruledTable : Text := "___\n|b|\n".toList

/-- The text behind the blank line is read on its own, and refused on its own. -/
theorem tokenize_append_blank_openTags :
    openTags.Closed ∧ ∃ tokens more refusal, tokenize openTags = .ok tokens ∧
      tokenize ruledTable = .ok more ∧ tokenize "__".toList = .error refusal ∧
      more.map Token.lineNo = [1, 2] ∧
      tokenize (openTags ++ '\n' :: ruledTable) = .ok
        (tokens ++ .blankBehind openTags :: more.map (Token.moved (.behindBlank openTags))) ∧
      tokenize (openTags ++ '\n' :: "__".toList) =
        .error (refusal.moved (.behindBlank openTags)) := by
  have hclosed : openTags.Closed := .inr (by decide)
  have hok : (tokenize openTags).isOk ∧ (tokenize "__".toList).isOk = false ∧
      (tokenize ruledTable).toOption.map (·.map Token.lineNo) = some [1, 2] := by decide +kernel
  obtain ⟨more, hbehind, hlines⟩ := exists_ok_of_map hok.2.2
  cases htok : tokenize openTags with
  | error r => rw [htok] at hok; cases hok.1
  | ok tokens =>
    have hmore := tokenize_append_blank hclosed htok ruledTable
    have hrefused := tokenize_append_blank hclosed htok "__".toList
    cases hshort : tokenize "__".toList with
    | ok _ => rw [hshort] at hok; cases hok.2.1
    | error refusal =>
      rw [hbehind] at hmore
      rw [hshort] at hrefused
      exact ⟨hclosed, tokens, more, refusal, rfl, hbehind, rfl, hlines, hmore, hrefused⟩

end ScenarioBook
