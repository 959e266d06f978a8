import ScenarioBook.Proofs.Line.Placed
import ScenarioBook.Proofs.StepText.Placeholders
import ScenarioBook.Proofs.Token.Consume

/-!
# Where tokens come from

Every line of a source is a part of it (`Line.StandsIn.isInfix`), and the texts that the shape of a
line picks out are parts of the line (`Shape.title_of_heading`, `Shape.step_isInfix`). Hence a
heading of an accepted source has a part of the source as its title, also when it was underlined,
and a step was read from a part of the source (`Token.origin_of_tokenize`). A source without the
escaped pair therefore gives steps and headings with as many placeholders as arguments
(`Token.filled_of_tokenize`).
-/

set_option autoImplicit false

namespace ScenarioBook

/-! ## Shapes -/

theorem Shape.afterMark?_isSuffix {mark t rest : Text} {c : Char}
    (h : afterMark? mark c t = some rest) : rest <:+ t := by
  unfold afterMark? at h
  split at h
  case h_1 => cases h
  case h_2 rest' hd =>
    split at h
    case isTrue => cases h
    case isFalse =>
      cases h
      exact ⟨mark, List.append_eq_of_isPrefixOf?_eq_some hd⟩

section
variable {l : Line}

/-- The text after a mark of the trimmed line is a part of the line. -/
theorem Shape.trim_afterMark?_isInfix {mark rest : Text} {c : Char}
    (h : afterMark? mark c l.text.trim = some rest) : rest.trim <:+: l.text :=
  ((Text.trim_isInfix rest).trans (afterMark?_isSuffix h).isInfix).trans
    (Text.trim_isInfix l.text)

theorem Shape.title_of_heading {kind : HeadingKind} {title : Text}
    (h : l.shape = .heading kind title) : title.Tight ∧ title <:+: l.text := by
  unfold Line.shape ofTrimmed at h
  repeat' split at h
  all_goals cases h
  · next hm => exact ⟨Text.tight_trim _, trim_afterMark?_isInfix hm⟩
  · next hm => exact ⟨Text.tight_trim _, trim_afterMark?_isInfix hm⟩

theorem Shape.step_isInfix {text : Text} (h : l.shape = .step text) : text <:+: l.text := by
  unfold Line.shape ofTrimmed at h
  repeat' split at h
  all_goals cases h
  next hm => exact trim_afterMark?_isInfix hm

end

/-! ## Tokens -/

namespace Token

/-- Titles and prose are parts of the source, and steps were read from parts of it. -/
def Origin (source : Text) (t : Token) : Prop :=
  match t.content with
  | .heading _ title => title <:+: source
  | .comment text => text = blankLine ∨ text <:+: source
  | .step value args _ => ∃ text, text <:+: source ∧ StepText.scan text = .ok ⟨value, args⟩
  | _ => True

section
variable {source : Text} {l : Line}

theorem origin_of_reads {t : Token} {mode mode' : Mode} (hl : l ∈ Line.ofSource source)
    (h : Lexer.Reads l mode t mode') : Origin source t := by
  have hline : l.text <:+: source := (Line.standsIn_of_mem hl).isInfix
  have hprose : l.text.trimEnd <:+: source := (Text.trimEnd_isPrefix l.text).isInfix.trans hline
  cases h with
  | heading hs => exact (Shape.title_of_heading hs).2.trans hline
  | blank => exact .inl rfl
  | prose | underline => exact .inr hprose
  | step hs hscan => exact ⟨_, (Shape.step_isInfix hs).trans hline, hscan⟩
  | tags | tableHeader | tableRow | dataTable | tearDown => exact trivial

theorem origin_underlined {kind : HeadingKind} {t : Token} (hp : t.isProse)
    (h : Origin source t) : Origin source (Lexer.underlined kind l t) := by
  obtain ⟨no, span, lineText, content⟩ := t
  cases content with
  | comment text =>
    have hne : text ≠ blankLine := by simpa [isProse] using hp
    exact (Text.trim_isInfix text).trans (Or.resolve_left h hne)
  | _ => simp [isProse] at hp

theorem origin_continued {t : Token} {text : Text} (h : Origin source t) :
    Origin source (Lexer.continued l text t) := by
  obtain ⟨no, span, lineText, content⟩ := t
  cases content <;> exact h

/-- **Tokens come from parts of the source.** -/
theorem origin_of_tokenize {tokens : List Token} (h : tokenize source = .ok tokens) :
    ∀ t ∈ tokens, Origin source t := by
  refine Lexer.forall_mem_of_tokenize h ?_ ?_ ?_
  · intro l mode t mode' hl hr
    exact origin_of_reads hl hr
  · intro l kind t _ hp ht
    exact origin_underlined hp ht
  · intro l t _ ht
    exact origin_continued ht

/-- A step, or a heading read as one, has as many placeholders as arguments. -/
def Filled (t : Token) : Prop :=
  match t.content with
  | .heading _ title => ∀ scanned, StepText.scan title = .ok scanned →
      placeholderCount scanned.value = scanned.args.length
  | .step value args _ => placeholderCount value = args.length
  | _ => True

/-- **Without the escaped pair, placeholders and arguments correspond.** -/
theorem filled_of_tokenize {tokens : List Token} (h : tokenize source = .ok tokens)
    (hp : ¬ StepText.escapedPair <:+: source) : ∀ t ∈ tokens, t.Filled := by
  intro t ht
  have horigin := origin_of_tokenize h t ht
  obtain ⟨no, span, lineText, content⟩ := t
  cases content with
  | heading kind title =>
    intro scanned hscan
    exact StepText.placeholderCount_scan hscan fun hin => hp (hin.trans horigin)
  | step value args block =>
    obtain ⟨text, htext, hscan⟩ := horigin
    exact StepText.placeholderCount_scan hscan fun hin => hp (hin.trans htext)
  | comment | tableHeader | tableRow | tags | dataTable | tearDown => exact trivial

end

end Token

end ScenarioBook
