import Mathlib.Data.Finset.Insert
import ScenarioBook.Proofs.Token.Rows
import ScenarioBook.Proofs.Token.Tiling

/-!
# What the lexer keeps in mind

The mode of the lexer can be kept as a set of independent flags instead (`Lexer.mark`): a comment
sets the first flag, a table line adds the second one and leaves the first, a `table:` line leaves
both, and every other line clears them. `Lexer.Sound` is what each line keeps, also where it reports
an error (`Lexer.Sound.consume`): the flags say the same as the mode, behind the flag for tags the
last token is a list of tags, and behind the flag for tables the last token, `table:` lines aside,
is a line of a table. So every row stands below a header, with only rows and `table:` lines between
them (`Token.RowsBelowHeaders`). Up to the first error the tokens tile the lines, and then the prose
that a line of `=` or `-` turns into a heading is the line directly above (`Lexer.CommentAbove`).
-/

set_option autoImplicit false

namespace ScenarioBook

namespace Token

/-! ## Rows below headers -/

def isRow (t : Token) : Bool :=
  match t.content with
  | .tableRow _ _ => true
  | _ => false

/-- The rows come while a table is open. -/
def Tabled (tokens : List Token) : Prop :=
  ∀ seen t, seen ++ [t] <+: tokens → t.isRow = true → inTable seen = true

/-- Each row stands below a header, with only rows and `table:` lines between them. -/
def RowsBelowHeaders (tokens : List Token) : Prop :=
  ∀ before row after, tokens = before ++ row :: after → row.isRow = true →
    ∃ front header between, before = front ++ header :: between ∧ header.isHeader = true ∧
      ∀ u ∈ between, u.isRow = true ∨ u.isReference = true

section
variable {tokens : List Token} {t : Token}

theorem tabled_nil : Tabled [] := fun seen t h => by simp at h

theorem Tabled.concat (h : Tabled tokens) (ht : t.isRow = true → inTable tokens = true) :
    Tabled (tokens ++ [t]) := by
  intro seen u hseen hu
  rcases List.prefix_concat_iff.1 hseen with heq | hseen
  · obtain ⟨rfl, rfl⟩ := List.append_inj' heq rfl |>.imp_right (List.singleton_inj.1 ·)
    exact ht hu
  · exact h seen u hseen hu

theorem Tabled.of_prefix {front : List Token} (h : Tabled tokens) (hfront : front <+: tokens) :
    Tabled front :=
  fun seen t hseen => h seen t (hseen.trans hfront)

theorem isRow_of_isTableLine (hline : t.isTableLine = true) (hheader : t.isHeader = false) :
    t.isRow = true := by
  obtain ⟨no, span, lineText, content⟩ := t
  cases content <;> simp_all [isRow, isTableLine, isHeader]

/-- **An open table has a header**, with only rows and `table:` lines behind it. -/
theorem exists_header_of_inTable (h : Tabled tokens) (hin : inTable tokens = true) :
    ∃ front header between, tokens = front ++ header :: between ∧ header.isHeader = true ∧
      ∀ u ∈ between, u.isRow = true ∨ u.isReference = true := by
  induction tokens using List.reverseRecOn with
  | nil => cases hin
  | append_singleton tokens t ih =>
    rw [inTable_concat] at hin
    by_cases hheader : t.isHeader = true
    · exact ⟨tokens, t, [], rfl, hheader, fun _ hu => by cases hu⟩
    -- the last token is a row or a `table:` line, and the table was open before it
    have hbefore : inTable tokens = true ∧ (t.isRow = true ∨ t.isReference = true) := by
      by_cases hline : t.isTableLine = true
      · have hrow := isRow_of_isTableLine hline (Bool.eq_false_iff.2 hheader)
        exact ⟨h tokens t List.prefix_rfl hrow, .inl hrow⟩
      · simp only [hline, Bool.false_or, Bool.and_eq_true] at hin
        exact ⟨hin.1, .inr hin.2⟩
    obtain ⟨front, header, between, rfl, hh, hbetween⟩ :=
      ih (h.of_prefix (List.prefix_append _ _)) hbefore.1
    refine ⟨front, header, between ++ [t], by simp, hh, ?_⟩
    exact List.forall_mem_append.2 ⟨hbetween, List.forall_mem_singleton.2 hbefore.2⟩

theorem Tabled.rowsBelowHeaders (h : Tabled tokens) : RowsBelowHeaders tokens := by
  rintro before row after rfl hrow
  have hin : inTable before = true := h before row ⟨after, by simp⟩ hrow
  exact exists_header_of_inTable (h.of_prefix (List.prefix_append _ _)) hin

/-- The last token that is no `table:` line, read off directly. -/
theorem inTable_iff : inTable tokens = true ↔
    ∃ last, (tokens.filter fun t => !t.isReference).getLast? = some last ∧
      last.isTableLine = true := by
  induction tokens using List.reverseRecOn with
  | nil => simp [inTable, Token.endsOn]
  | append_singleton tokens t ih =>
    rw [inTable_concat, List.filter_append]
    cases href : t.isReference with
    | true =>
      have hline : t.isTableLine = false := by
        obtain ⟨no, span, lineText, content⟩ := t
        cases content <;> simp_all [isTableLine, isReference]
      simpa [href, hline] using ih
    | false => simp [href]

end

end Token

namespace Lexer

open Token (inTable Tabled)

/-! ## The flags -/

/-- What the lexer can keep in mind. -/
inductive Flag where
  /-- the line before was a comment -/
  | comment
  /-- a table is open -/
  | table
  /-- the tags go on in the next line -/
  | tags
deriving DecidableEq

/-- The last token is prose. -/
def EndsInProse (lx : Lexer) : Prop := ∃ t, lx.tokens.getLast? = some t ∧ t.isProse = true

instance (lx : Lexer) : Decidable lx.EndsInProse :=
  decidable_of_iff (lx.tokens.getLast?.any Token.isProse = true) (by
    simp [EndsInProse, Option.any_eq_true])

/-- The flag that a line of tags leaves. -/
def continuing (text : Text) : Finset Flag := if text.trimEnd.endsWith [','] then {.tags} else ∅

/-- The flags after a line, given those before it. -/
def mark (lx : Lexer) (l : Line) (s : Finset Flag) : Finset Flag :=
  match l.shape with
  | .blank => {.comment}
  | .heading _ _ => ∅
  | .underline _ => if .comment ∈ s ∧ lx.EndsInProse then ∅ else {.comment}
  | .step _ => ∅
  | .tags text => continuing text
  | .tableLine => if .tags ∈ s then continuing l.text.trim else insert .table s
  | .dataTable _ => if .tags ∈ s then continuing l.text.trim else s
  | .tearDown => if .tags ∈ s then continuing l.text.trim else ∅
  | .prose => if .tags ∈ s then continuing l.text.trim else {.comment}

/-- The flags say what the mode says. The flag of a comment stays set when a table is opened. -/
structure Agrees (s : Finset Flag) (mode : Mode) : Prop where
  tags : .tags ∈ s ↔ mode = .tags
  table : .table ∈ s ↔ mode = .table
  comment : mode = .comment → .comment ∈ s
  stale : .comment ∈ s → mode = .comment ∨ mode = .table

/-- What the flags say of the tokens. -/
structure Sound (lx : Lexer) (s : Finset Flag) : Prop where
  agrees : Agrees s lx.mode
  tags : lx.mode = .tags → ∃ t, lx.tokens.getLast? = some t ∧ t.isTags = true
  table : lx.mode = .table → inTable lx.tokens = true
  tabled : Tabled lx.tokens

theorem agrees_fresh : Agrees ∅ .fresh := by constructor <;> simp

theorem agrees_comment : Agrees {.comment} .comment := by constructor <;> simp

theorem agrees_continuing (text : Text) : Agrees (continuing text) (modeAfterTags text) := by
  unfold continuing modeAfterTags
  split <;> constructor <;> simp

theorem Agrees.open {s : Finset Flag} {mode : Mode} (h : Agrees s mode) (hm : mode ≠ .tags) :
    Agrees (insert .table s) .table where
  tags := by simpa using mt h.tags.1 hm
  table := by simp
  comment := by simp
  stale := fun _ => .inr rfl

section
variable {lx lx' : Lexer} {l : Line} {s : Finset Flag}

/-! ## What a line leaves -/

/-- Nothing is kept in mind. -/
theorem sound_fresh (hmode : lx'.mode = .fresh) (htabled : Tabled lx'.tokens) : Sound lx' ∅ where
  agrees := hmode ▸ agrees_fresh
  tags := fun h => by rw [hmode] at h; cases h
  table := fun h => by rw [hmode] at h; cases h
  tabled := htabled

theorem Sound.push_fresh (h : Sound lx s) {t : Token} (hmode : lx'.mode = .fresh)
    (htokens : lx'.tokens = lx.tokens ++ [t]) (ht : t.isRow = false) : Sound lx' ∅ := by
  refine sound_fresh hmode (htokens ▸ h.tabled.concat fun hrow => ?_)
  rw [ht] at hrow
  cases hrow

theorem Sound.comment (h : Sound lx s) (l : Line) (text : Text) :
    Sound (lx.comment l text) {.comment} where
  agrees := agrees_comment
  tags := fun hm => by cases hm
  table := fun hm => by cases hm
  tabled := h.tabled.concat fun hrow => by cases hrow

theorem Sound.heading (h : Sound lx s) (l : Line) (kind : HeadingKind) (title : Text) :
    Sound (lx.heading l kind title) ∅ := by
  unfold Lexer.heading
  split
  · exact sound_fresh rfl h.tabled
  · exact h.push_fresh rfl rfl rfl

theorem Sound.tearDown (h : Sound lx s) (l : Line) (marker : Text) :
    Sound (lx.tearDown l marker) ∅ := by
  unfold Lexer.tearDown
  split
  · exact sound_fresh rfl h.tabled
  · exact h.push_fresh rfl rfl rfl

/-- The line of a table follows lines of it, or else it is a header. -/
theorem Sound.tableLine (h : Sound lx s) (hm : lx.mode ≠ .tags) (l : Line) (row : Text) :
    Sound (lx.tableLine l row) (insert .table s) := by
  have hopen : ∀ {lx' : Lexer} {t : Token}, lx'.tokens = lx.tokens ++ [t] → lx'.mode = .table →
      t.isTableLine = true → (t.isRow = true → lx.mode = .table) → Sound lx' (insert .table s) := by
    intro lx' t htokens hmode hline hrow
    refine ⟨hmode ▸ h.agrees.open hm, fun ht => ?_, fun _ => ?_, ?_⟩
    · rw [hmode] at ht
      cases ht
    · rw [htokens, Token.inTable_concat, hline, Bool.true_or]
    · exact htokens ▸ h.tabled.concat fun ht => h.table (hrow ht)
  unfold Lexer.tableLine
  simp only
  split
  · next ht => exact hopen rfl rfl rfl fun _ => ht
  · split
    · exact hopen rfl rfl rfl fun hrow => by cases hrow
    · exact hopen rfl rfl rfl fun hrow => by cases hrow

/-- A `table:` line leaves flags and table as they are. -/
theorem Sound.dataTable (h : Sound lx s) (hm : lx.mode ≠ .tags) (l : Line) (path : Text) :
    Sound (lx.dataTable l path) s := by
  unfold Lexer.dataTable
  split
  · exact ⟨h.agrees, h.tags, h.table, h.tabled⟩
  · refine ⟨h.agrees, fun ht => absurd ht hm, fun ht => ?_, h.tabled.concat fun hrow => ?_⟩
    · have hbefore : inTable lx.tokens = true := h.table ht
      simp only [push, Token.inTable_concat, hbefore, Token.isReference, Bool.true_and,
        Bool.or_true]
    · cases hrow

theorem modeAfterTags_ne_table (text : Text) : modeAfterTags text ≠ .table := by
  unfold modeAfterTags
  split <;> decide

theorem Sound.tagsLine (h : Sound lx s) (l : Line) (text : Text) :
    Sound (lx.tags l text) (continuing text) := by
  have hmode : (lx.tags l text).mode = modeAfterTags text := rfl
  exact ⟨hmode ▸ agrees_continuing text, fun _ => ⟨_, List.getLast?_concat, rfl⟩,
    fun ht => absurd (hmode ▸ ht) (modeAfterTags_ne_table text),
    h.tabled.concat fun hrow => by cases hrow⟩

/-- Tags that go on are added to tags. -/
theorem continueTags_eq {t : Token} (hlast : lx.tokens.getLast? = some t) (ht : t.isTags = true)
    (l : Line) (text : Text) :
    ∃ value values, t.content = .tags value values ∧
      (lx.continueTags l text).tokens = lx.tokens.dropLast ++
        [{ t with
            content := .tags (value ++ ' ' :: text) (values ++ splitTags text)
            span := t.span.union l.span }] := by
  unfold Token.isTags at ht
  split at ht
  case h_1 value values hc =>
    refine ⟨value, values, hc, ?_⟩
    simp only [continueTags, hlast, Option.map_some, Option.toList_some, continued, hc]
  case h_2 => cases ht

theorem Sound.continueTags (h : Sound lx s) (hm : lx.mode = .tags) (l : Line) (text : Text) :
    Sound (lx.continueTags l text) (continuing text) := by
  obtain ⟨t, hlast, ht⟩ := h.tags hm
  obtain ⟨value, values, -, htokens⟩ := continueTags_eq hlast ht l text
  have hmode : (lx.continueTags l text).mode = modeAfterTags text := rfl
  refine ⟨hmode ▸ agrees_continuing text, fun _ => ⟨_, htokens ▸ List.getLast?_concat, rfl⟩,
    fun ht => absurd (hmode ▸ ht) (modeAfterTags_ne_table text), ?_⟩
  rw [htokens]
  exact (h.tabled.of_prefix (List.dropLast_prefix _)).concat fun hrow => by cases hrow

/-- The flag of a comment decides as the mode does: above an open table it does not count, since the
last token is no prose then. -/
theorem Sound.merges_iff (h : Sound lx s) :
    .comment ∈ s ∧ lx.EndsInProse ↔ lx.mode = .comment ∧ lx.EndsInProse := by
  refine and_congr_left fun ⟨t, hlast, hprose⟩ => ⟨fun hin => ?_, h.agrees.comment⟩
  rcases h.agrees.stale hin with hm | hm
  · exact hm
  · -- the last token of an open table is a line of it or a `table:` line
    obtain ⟨tokens, htokens⟩ := List.getLast?_eq_some_iff.1 hlast
    have hin := h.table hm
    rw [htokens, Token.inTable_concat] at hin
    obtain ⟨no, span, lineText, content⟩ := t
    cases content <;> simp_all [Token.isProse, Token.isTableLine, Token.isReference]

theorem Sound.underline (h : Sound lx s) (l : Line) (kind : HeadingKind) :
    Sound (lx.underline l kind) (if .comment ∈ s ∧ lx.EndsInProse then ∅ else {.comment}) := by
  unfold Lexer.underline
  cases hlast : lx.tokens.getLast? with
  | none =>
    have hnot : ¬ (.comment ∈ s ∧ lx.EndsInProse) := by
      rintro ⟨-, t, ht, -⟩
      rw [hlast] at ht
      cases ht
    rw [if_neg hnot]
    exact h.comment l _
  | some t =>
    have hends : lx.EndsInProse ↔ t.isProse = true := by
      simp [EndsInProse, hlast]
    have hiff : .comment ∈ s ∧ lx.EndsInProse ↔ lx.mode = .comment ∧ t.isProse = true :=
      h.merges_iff.trans (and_congr_right fun _ => hends)
    simp only [hiff]
    split
    · refine sound_fresh (by rfl) ?_
      exact (h.tabled.of_prefix (List.dropLast_prefix _)).concat fun hrow => by cases hrow
    · exact h.comment l _

theorem Sound.step (h : Sound lx s) (l : Line) (text : Text) (rest : List Line) :
    Sound (lx.step l text rest).1 ∅ := by
  unfold Lexer.step
  split
  case h_1 => exact sound_fresh rfl h.tabled
  case h_2 =>
    split
    case h_1 => exact h.push_fresh rfl rfl rfl
    case h_2 =>
      split
      case isTrue =>
        split
        case h_1 => exact h.push_fresh rfl rfl rfl
        case h_2 => exact sound_fresh rfl h.tabled
      case isFalse => exact h.push_fresh rfl rfl rfl

/-- **Each line keeps the flags true**, also where it reports an error. -/
theorem Sound.consume (h : Sound lx s) (l : Line) (rest : List Line) :
    Sound (lx.consume l rest).1 (lx.mark l s) := by
  have hyield : ∀ {yes no : Lexer} {yes' no' : Finset Flag},
      (lx.mode = .tags → Sound yes yes') → (lx.mode ≠ .tags → Sound no no') →
      Sound (if lx.mode = .tags then yes else no) (if .tags ∈ s then yes' else no') := by
    intro yes no yes' no' hyes hno
    by_cases hm : lx.mode = .tags
    · rw [if_pos hm, if_pos (h.agrees.tags.2 hm)]
      exact hyes hm
    · rw [if_neg hm, if_neg (mt h.agrees.tags.1 hm)]
      exact hno hm
  unfold Lexer.consume mark
  cases hs : l.shape with
  | blank => exact h.comment l _
  | heading kind title => exact h.heading l kind title
  | underline kind => exact h.underline l kind
  | step text => exact h.step l text rest
  | tags text => exact h.tagsLine l text
  | tableLine => exact hyield (h.continueTags · l _) (h.tableLine · l _)
  | dataTable path => exact hyield (h.continueTags · l _) (h.dataTable · l path)
  | tearDown => exact hyield (h.continueTags · l _) fun _ => h.tearDown l _
  | prose => exact hyield (h.continueTags · l _) fun _ => h.comment l _

/-! ## Tokens that change -/

theorem prefix_ite {tokens : List Token} {p : Prop} [Decidable p] {yes no : Lexer}
    (hyes : tokens <+: yes.tokens) (hno : tokens <+: no.tokens) :
    tokens <+: (if p then yes else no).tokens := by
  split
  · exact hyes
  · exact hno

theorem prefix_tableLine (lx : Lexer) (l : Line) (row : Text) :
    lx.tokens <+: (lx.tableLine l row).tokens := by
  refine prefix_ite (List.prefix_append _ _) ?_
  split
  · exact List.prefix_append _ _
  · exact List.prefix_append _ _

theorem prefix_step (lx : Lexer) (l : Line) (text : Text) (rest : List Line) :
    lx.tokens <+: (lx.step l text rest).1.tokens := by
  unfold Lexer.step
  split
  case h_1 => exact List.prefix_rfl
  case h_2 =>
    split
    case h_1 => exact List.prefix_append _ _
    case h_2 =>
      split
      case isTrue =>
        split
        case h_1 => exact List.prefix_append _ _
        case h_2 => exact List.prefix_rfl
      case isFalse => exact List.prefix_append _ _

/-- Apart from prose that is underlined and tags that go on, the tokens so far stay as they are. -/
theorem Sound.prefix_consume (h : Sound lx s) (l : Line) (rest : List Line)
    (hu : ∀ kind, l.shape = .underline kind → ¬ (.comment ∈ s ∧ lx.EndsInProse))
    (hy : l.shape.yields = true → .tags ∉ s) : lx.tokens <+: (lx.consume l rest).1.tokens := by
  have hno : ∀ {lx' : Lexer}, l.shape.yields = true → lx.tokens <+: lx'.tokens →
      lx.tokens <+: (if lx.mode = .tags then lx.continueTags l l.text.trim else lx').tokens := by
    intro lx' hyields hkeep
    rwa [if_neg (mt h.agrees.tags.2 (hy hyields))]
  unfold Lexer.consume
  cases hs : l.shape with
  | blank => exact List.prefix_append _ _
  | heading kind title => exact prefix_ite List.prefix_rfl (List.prefix_append _ _)
  | underline kind =>
    have hnot : ¬ (lx.mode = .comment ∧ lx.EndsInProse) := mt h.merges_iff.2 (hu kind hs)
    simp only [other, Lexer.underline]
    split
    · next t hlast =>
      rw [if_neg fun hp => hnot ⟨hp.1, t, hlast, hp.2⟩]
      exact List.prefix_append _ _
    · exact List.prefix_append _ _
  | step text => exact lx.prefix_step l text rest
  | tags text => exact List.prefix_append _ _
  | tableLine => exact hno (by rw [hs]; rfl) (lx.prefix_tableLine l _)
  | dataTable path =>
    exact hno (by rw [hs]; rfl) (prefix_ite List.prefix_rfl (List.prefix_append _ _))
  | tearDown => exact hno (by rw [hs]; rfl) (prefix_ite List.prefix_rfl (List.prefix_append _ _))
  | prose => exact hno (by rw [hs]; rfl) (List.prefix_append _ _)

/-- Prose that is underlined becomes a heading. -/
theorem Sound.consume_underline (h : Sound lx s) {kind : HeadingKind} {t : Token}
    (hs : l.shape = .underline kind) (hin : .comment ∈ s) (hlast : lx.tokens.getLast? = some t)
    (ht : t.isProse = true) (rest : List Line) :
    (lx.consume l rest).1.tokens = lx.tokens.dropLast ++ [underlined kind l t] := by
  have hm : lx.mode = .comment := (h.merges_iff.1 ⟨hin, t, hlast, ht⟩).1
  simp only [Lexer.consume, hs, other, Lexer.underline, hlast]
  rw [if_pos ⟨hm, ht⟩]

/-- Lines that give way go on with the tags. -/
theorem consume_of_yields (hs : l.shape.yields = true) (hm : lx.mode = .tags) (rest : List Line) :
    (lx.consume l rest).1 = lx.continueTags l l.text.trim := by
  unfold Lexer.consume
  cases hshape : l.shape with
  | tableLine | dataTable path | tearDown | prose => exact if_pos hm
  | blank | heading | underline | step | tags => rw [hshape] at hs; cases hs

end

/-! ## All states -/

/-- The comment that the line directly above became, which is not blank. -/
def CommentAbove (source : Text) (l : Line) (t : Token) : Prop :=
  ∃ above ∈ Line.ofSource source, above.no + 1 = l.no ∧ above.text.trim ≠ [] ∧
    t = ⟨above.no, above.span, above.text, .comment above.text.trimEnd⟩

/-- The states that the lexer comes through, errors or not: the lexer, its flags and the lines that
are left. -/
inductive Reachable (source : Text) : Lexer → Finset Flag → List Line → Prop
  | start : Reachable source start ∅ (Line.ofSource source)
  | line {lx : Lexer} {s : Finset Flag} {l : Line} {rest : List Line}
      (h : Reachable source lx s (l :: rest)) :
      Reachable source (lx.consume l rest).1 (lx.mark l s) (lx.consume l rest).2

/-- The flags tell the truth about the tokens, and what they decide about the next line is right. -/
structure Truthful (source : Text) (lx : Lexer) (s : Finset Flag) (rest : List Line) : Prop where
  tags : .tags ∈ s → ∃ t, lx.tokens.getLast? = some t ∧ t.isTags = true
  table : .table ∈ s → ∃ t, (lx.tokens.filter fun t => !t.isReference).getLast? = some t ∧
    t.isTableLine = true
  rows : Token.RowsBelowHeaders lx.tokens
  /-- The lexer, which looks at its mode, decides as the flags do. -/
  tags_iff : .tags ∈ s ↔ lx.mode = .tags
  table_iff : .table ∈ s ↔ lx.mode = .table
  merges_iff : .comment ∈ s ∧ lx.EndsInProse ↔ lx.mode = .comment ∧ lx.EndsInProse
  /-- Without an error so far, what is underlined is the line directly above. -/
  merges : ∀ l after kind t, rest = l :: after → l.shape = .underline kind → .comment ∈ s →
    lx.tokens.getLast? = some t → t.isProse = true →
    (lx.consume l after).1.tokens = lx.tokens.dropLast ++ [underlined kind l t] ∧
      (¬ lx.HasError → CommentAbove source l t)
  /-- More tags are added to tags. -/
  continues : ∀ l after, rest = l :: after → l.shape.yields = true → .tags ∈ s →
    ∃ t value values, lx.tokens.getLast? = some t ∧ t.content = .tags value values ∧
      (lx.consume l after).1.tokens = lx.tokens.dropLast ++
        [{ t with
            content := .tags (value ++ ' ' :: l.text.trim) (values ++ splitTags l.text.trim)
            span := t.span.union l.span }]
  /-- No other line changes a token. -/
  keeps : ∀ l after, rest = l :: after →
    (∀ kind, l.shape = .underline kind → ¬ (.comment ∈ s ∧ lx.EndsInProse)) →
    (l.shape.yields = true → .tags ∉ s) → lx.tokens <+: (lx.consume l after).1.tokens

section
variable {source : Text} {lx : Lexer} {s : Finset Flag} {rest : List Line}

theorem Reachable.sound (h : Reachable source lx s rest) : Sound lx s := by
  induction h with
  | start => exact sound_fresh rfl Token.tabled_nil
  | line _ ih => exact ih.consume _ _

/-- Up to the first error the tokens tile the lines. -/
theorem Reachable.tiled (h : Reachable source lx s rest) :
    lx.HasError ∨ ∃ blocks, lx.Tiled source rest blocks := by
  induction h with
  | start => exact .inr ⟨_, tiled_start source⟩
  | @line lx s l rest _ ih =>
    rcases consume_takes lx l rest with herr | htakes
    · exact .inl herr
    · refine ih.imp (fun herr => ?_) fun ⟨blocks, htiled⟩ => htiled.takes htakes
      rw [HasError, htakes.diagnostics]
      exact herr

/-- Prose at the end of the tokens is the line directly above. -/
theorem Tiled.commentAbove {blocks : List (List Line)} {l : Line} {t : Token}
    (h : lx.Tiled source (l :: rest) blocks) (hlast : lx.tokens.getLast? = some t)
    (ht : t.isProse = true) : CommentAbove source l t := by
  obtain ⟨before, block, rfl, -, howns⟩ := exists_of_forall₂_getLast? h.owns hlast
  obtain ⟨above, rfl, hne, rfl⟩ := howns.of_isProse ht
  have hlines : before.flatten ++ above :: (l :: rest) = Line.ofSource source := by
    rw [← h.lines]
    simp
  have habove : above.no = before.flatten.length + 1 := Line.no_eq hlines
  have hbelow : before.flatten ++ [above] ++ l :: rest = Line.ofSource source := by
    rw [← hlines, List.append_assoc, List.singleton_append]
  have hl : l.no = (before.flatten ++ [above]).length + 1 := Line.no_eq hbelow
  refine ⟨above, hlines ▸ by simp, ?_, hne, rfl⟩
  rw [hl, habove, List.length_append, List.length_singleton]

theorem Reachable.truthful (h : Reachable source lx s rest) : Truthful source lx s rest where
  tags := fun hin => h.sound.tags (h.sound.agrees.tags.1 hin)
  table := fun hin => Token.inTable_iff.1 (h.sound.table (h.sound.agrees.table.1 hin))
  rows := h.sound.tabled.rowsBelowHeaders
  tags_iff := h.sound.agrees.tags
  table_iff := h.sound.agrees.table
  merges_iff := h.sound.merges_iff
  merges := by
    rintro l after kind t rfl hs hin hlast ht
    refine ⟨h.sound.consume_underline hs hin hlast ht after, fun hclean => ?_⟩
    obtain ⟨blocks, htiled⟩ := h.tiled.resolve_left hclean
    exact htiled.commentAbove hlast ht
  continues := by
    rintro l after rfl hs hin
    have hm := h.sound.agrees.tags.1 hin
    obtain ⟨t, hlast, ht⟩ := h.sound.tags hm
    obtain ⟨value, values, hc, htokens⟩ := continueTags_eq hlast ht l l.text.trim
    exact ⟨t, value, values, hlast, hc, consume_of_yields hs hm after ▸ htokens⟩
  keeps := fun l after _ hu hy => h.sound.prefix_consume l after hu hy

end

/-- The state after all lines. -/
theorem exists_reachable (source : Text) :
    ∃ s, Reachable source (start.run (Line.ofSource source)) s [] :=
  run_induction (motive := fun lx rest => ∃ s, Reachable source lx s rest)
    (fun _ _ _ ⟨_, h⟩ => ⟨_, h.line⟩) ⟨∅, .start⟩

/-- **The flags tell the truth in every state**, also after errors, and so each row that the lexer
returns stands below a header. -/
theorem flags_truthful (source : Text) :
    (∀ lx s rest, Reachable source lx s rest → Truthful source lx s rest) ∧
    (∃ s, Reachable source (start.run (Line.ofSource source)) s []) ∧
    ∀ tokens, tokenize source = .ok tokens → Token.RowsBelowHeaders tokens := by
  refine ⟨fun lx s rest h => h.truthful, exists_reachable source, fun tokens h => ?_⟩
  obtain ⟨s, hend⟩ := exists_reachable source
  simp only [tokenize] at h
  split at h
  · cases h
  · cases h
    exact hend.truthful.rows

/-! ## Two sources -/

/-- The state after so many lines; a block counts as one line with its step. -/
def stateAfter (source : Text) : Nat → Lexer × Finset Flag × List Line
  | 0 => (start, ∅, Line.ofSource source)
  | n + 1 =>
    match stateAfter source n with
    | (lx, s, l :: rest) => ((lx.consume l rest).1, lx.mark l s, (lx.consume l rest).2)
    | (lx, s, []) => (lx, s, [])

theorem reachable_stateAfter (source : Text) (n : Nat) :
    Reachable source (stateAfter source n).1 (stateAfter source n).2.1
      (stateAfter source n).2.2 := by
  induction n with
  | zero => exact .start
  | succ n ih =>
    rw [stateAfter]
    split
    · next heq =>
      rw [heq] at ih
      exact ih.line
    · next heq => rwa [heq] at ih

/-- Tags on two lines, a table with a `table:` line in it, and a note that is underlined. -/
def shedSource : Text := "tags: a,\nb\n|x|\ntable: d.csv\n|1|\nShed\n----\n".toList

/-- Tags that go on, a marker that is too short, and two lines of a table below a blank line. -/
def atticSource : Text := "tags: a,\nb,\nc\n__\n\n|x|\n|1|\n".toList

theorem flags_truthful_shed_attic :
    (stateAfter shedSource 6).2.1 = {.comment} ∧
    (∃ l t, (stateAfter shedSource 6).2.2 = [l] ∧ l.shape = .underline .scenario ∧
      (stateAfter shedSource 6).1.tokens.getLast? = some t ∧ CommentAbove shedSource l t) ∧
    (∃ tokens, tokenize shedSource = .ok tokens ∧ tokens.any (·.isRow) = true ∧
      Token.RowsBelowHeaders tokens) ∧
    (stateAfter atticSource 7).1.HasError ∧
    (stateAfter atticSource 7).2.1 = {.comment, .table} ∧
    ∃ t, ((stateAfter atticSource 7).1.tokens.filter fun t => !t.isReference).getLast? = some t ∧
      t.isTableLine = true := by
  have hshed := (flags_truthful shedSource).1 _ _ _ (reachable_stateAfter shedSource 6)
  have hattic := (flags_truthful atticSource).1 _ _ _ (reachable_stateAfter atticSource 7)
  have hcomment : (stateAfter shedSource 6).2.1 = {.comment} := by decide +kernel
  have htable : (stateAfter atticSource 7).2.1 = {.comment, .table} := by decide +kernel
  have hclean : ¬ (stateAfter shedSource 6).1.HasError := by unfold HasError; decide +kernel
  have hshape : (stateAfter shedSource 6).2.2.map (·.shape) = [.underline .scenario] := by
    decide +kernel
  have hprose : (stateAfter shedSource 6).1.EndsInProse := by decide +kernel
  have hok : (tokenize shedSource).toOption.map (·.any (·.isRow)) = some true := by
    decide +kernel
  refine ⟨hcomment, ?_, ?_, by unfold HasError; decide +kernel, htable,
    hattic.table (by rw [htable]; decide)⟩
  · obtain ⟨l, hl, hs⟩ := List.map_eq_singleton_iff.1 hshape
    obtain ⟨t, hlast, ht⟩ := hprose
    have hin : .comment ∈ (stateAfter shedSource 6).2.1 := by rw [hcomment]; decide
    exact ⟨l, t, hl, hs, hlast, (hshed.merges l [] .scenario t hl hs hin hlast ht).2 hclean⟩
  · obtain ⟨tokens, htok, hrow⟩ := exists_ok_of_map hok
    exact ⟨tokens, htok, hrow, (flags_truthful shedSource).2.2 tokens htok⟩

end Lexer

end ScenarioBook
