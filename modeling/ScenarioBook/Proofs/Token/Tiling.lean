import Mathlib.Data.List.Forall2
import ScenarioBook.Proofs.Line.Placed
import ScenarioBook.Proofs.Token.Consume

/-!
# Tokens tile the source

The lines of an accepted source are divided into blocks, one after the other and none left over, and
each token stands for its block (`Token.Owns`): an underlined heading for two lines, a list of tags
for its line and those that go on with it, a step with a block for the lines up to the closing
fence, everything else for one line. `Lexer.Tiled` is the invariant of the lexer: the tokens so far
own the lines so far, and while a list of tags is open it is the last token. Each line keeps it
(`Lexer.Tiled.takes`), so it holds after all of them, and with it what the blocks say about the
line numbers and the spans of the tokens (`tiling_of_tokenize`).
-/

set_option autoImplicit false

namespace ScenarioBook

namespace Token

/-- The token of the `tags:` line `l` and the lines `more` that go on with it. -/
def ofTags (l : Line) (text : Text) (more : List Line) : Token :=
  ⟨l.no, ⟨l.start, (more.getLast?.getD l).span.stop⟩, l.text,
    .tags (text.trim ++ more.flatMap fun m => ' ' :: m.text.trim)
      (splitTags text ++ more.flatMap fun m => splitTags m.text.trim)⟩

/-- The texts that a list of tags is made of, one for each line. -/
def tagTexts (text : Text) (more : List Line) : List Text := text :: more.map (·.text.trim)

/-- The lines are the ones that the token stands for. -/
inductive Owns : Token → List Line → Prop
  | line {l : Line} {mode mode' : Mode} {t : Token} (hr : Lexer.Reads l mode t mode')
      (hb : t.block? = none) (ht : ∀ text values, t.content ≠ .tags text values) : Owns t [l]
  | underlined {above below : Line} {kind : HeadingKind} (ha : above.text.trim ≠ [])
      (hb : below.shape = .underline kind) :
      Owns ⟨above.no, ⟨above.start, below.span.stop⟩, above.text, .heading kind above.text.trim⟩
        [above, below]
  | tags {l : Line} {text : Text} {more : List Line} (hs : l.shape = .tags text)
      (hm : ∀ m ∈ more, m.shape.yields)
      (ho : ∀ t ∈ (tagTexts text more).dropLast, t.trimEnd.endsWith [',']) :
      Owns (ofTags l text more) (l :: more)
  | block {l opening closing : Line} {inner : List Line} {text : Text}
      {scanned : StepText.Scanned} (hs : l.shape = .step text)
      (hscan : StepText.scan text = .ok scanned) (ho : opening.isFence)
      (hi : ∀ m ∈ inner, m.isFence = false) (hc : closing.isFence) :
      Owns ⟨l.no, l.span, text, .step scanned.value scanned.args
          (some (['\n'].intercalate (inner.map (·.text))))⟩
        (l :: opening :: (inner ++ [closing]))

/-- The line with which the span of a token ends: its last one for headings and tags, its first one
for all else. -/
def endLine? (t : Token) (block : List Line) : Option Line :=
  match t.content with
  | .heading _ _ | .tags _ _ => block.getLast?
  | _ => block.head?

/-- The token has the number of its first line, and its span starts with that line and ends with its
end line. -/
def Covers (t : Token) (block : List Line) : Prop :=
  ∃ first last, block.head? = some first ∧ t.endLine? block = some last ∧
    t.lineNo = first.no ∧ t.span = ⟨first.start, last.span.stop⟩

end Token

/-- The tokens tile the source: each stands for a block of lines, and the blocks are the lines of
the source. -/
structure Tiling (source : Text) (tokens : List Token) (blocks : List (List Line)) : Prop where
  lines : blocks.flatten = Line.ofSource source
  placed : ∀ l ∈ blocks.flatten, l.StandsIn source
  owns : List.Forall₂ Token.Owns tokens blocks
  numbered : ∀ (i : Nat) (t : Token), tokens[i]? = some t →
    t.lineNo = (blocks.take i).flatten.length + 1
  covers : List.Forall₂ Token.Covers tokens blocks
  within : ∀ t ∈ tokens, t.span.Within source
  ordered : tokens.Pairwise fun t u => t.span.stop < u.span.start

/-! ## What a token owns -/

namespace Token

section
variable {t : Token} {block : List Line} {l : Line}

/-- Prose is a line of its own. -/
theorem Owns.of_isProse (h : t.Owns block) (hp : t.isProse) :
    ∃ above : Line, block = [above] ∧ above.text.trim ≠ [] ∧
      t = ⟨above.no, above.span, above.text, .comment above.text.trimEnd⟩ := by
  cases h with
  | @line above mode mode' t hr hb ht =>
    cases hr with
    | prose hs =>
      refine ⟨above, rfl, fun hnil => ?_, rfl⟩
      rw [Line.shape, hnil] at hs
      cases hs
    | underline hs =>
      refine ⟨above, rfl, fun hnil => ?_, rfl⟩
      rw [Line.shape, hnil] at hs
      cases hs
    | blank | heading | step | tags | tableHeader | tableRow | dataTable | tearDown =>
      simp [isProse] at hp
  | underlined | tags | block => simp [isProse, ofTags] at hp

/-- What one more line adds to a list of tags. -/
theorem continued_ofTags {text : Text} {more : List Line} {m : Line} (hstart : l.start ≤ m.start)
    (hstop : (more.getLast?.getD l).span.stop ≤ m.start) :
    Lexer.continued m m.text.trim (ofTags l text more) = ofTags l text (more ++ [m]) := by
  have hlast := m.span_start_le_stop
  simp only [Line.span] at hstop hlast
  have hspan : Span.union ⟨l.start, (more.getLast?.getD l).span.stop⟩ m.span =
      ⟨l.start, m.span.stop⟩ := by
    simp only [Span.union, Line.span, Span.mk.injEq]
    omega
  simp only [Lexer.continued, ofTags, hspan, List.getLast?_concat, Option.getD_some,
    List.flatMap_append, List.flatMap_singleton, List.append_assoc]

/-- A token covers the lines it owns. -/
theorem Owns.covers (h : t.Owns block) : t.Covers block := by
  cases h with
  | @line l mode mode' t hr hb ht =>
    have hend : t.endLine? [l] = some l := by
      unfold endLine?
      split <;> rfl
    refine ⟨l, l, rfl, hend, ?_, ?_⟩ <;> cases hr <;> rfl
  | underlined => exact ⟨_, _, rfl, rfl, rfl, rfl⟩
  | @tags l text more =>
    refine ⟨l, more.getLast?.getD l, rfl, ?_, rfl, rfl⟩
    simp only [ofTags, endLine?, List.getLast?_cons]
  | block => exact ⟨_, _, rfl, rfl, rfl, rfl⟩

theorem Covers.mem (h : t.Covers block) :
    ∃ first last, first ∈ block ∧ last ∈ block ∧ t.span = ⟨first.start, last.span.stop⟩ := by
  obtain ⟨first, last, hfirst, hlast, -, hspan⟩ := h
  refine ⟨first, last, List.mem_of_head? hfirst, ?_, hspan⟩
  unfold endLine? at hlast
  split at hlast
  · exact List.mem_of_getLast? hlast
  · exact List.mem_of_getLast? hlast
  · exact List.mem_of_head? hlast

/-- A span starts before it ends. -/
theorem Covers.start_le_stop (h : t.Covers block)
    (hord : block.Pairwise fun a b => a.span.stop < b.start) : t.span.start ≤ t.span.stop := by
  obtain ⟨first, last, hfirst, hlast, -, hspan⟩ := h
  obtain ⟨more, rfl⟩ := List.head?_eq_some_iff.1 hfirst
  have hmem : last ∈ first :: more := by
    unfold endLine? at hlast
    split at hlast
    · exact List.mem_of_getLast? hlast
    · exact List.mem_of_getLast? hlast
    · exact List.mem_of_head? hlast
  have hl := last.span_start_le_stop
  rw [hspan]
  rcases List.mem_cons.1 hmem with rfl | hmem
  · exact hl
  · have hlt := (List.pairwise_cons.1 hord).1 last hmem
    have hf := first.span_start_le_stop
    simp only [Line.span] at hl hlt hf ⊢
    omega

end

end Token

/-! ## One line -/

/-- The last element of one list belongs to the last element of the other. -/
theorem exists_of_forall₂_getLast? {α β : Type} {R : α → β → Prop} {as : List α} {bs : List β}
    {a : α} (h : List.Forall₂ R as bs) (ha : as.getLast? = some a) :
    ∃ bs' b, bs = bs' ++ [b] ∧ List.Forall₂ R as.dropLast bs' ∧ R a b := by
  obtain ⟨as', rfl⟩ := List.getLast?_eq_some_iff.1 ha
  have htake := List.forall₂_take as'.length h
  have hdrop := List.forall₂_drop as'.length h
  rw [List.take_left] at htake
  rw [List.drop_left, List.forall₂_cons_left_iff] at hdrop
  obtain ⟨b, rest, hb, hnil, hdrop⟩ := hdrop
  rw [List.forall₂_nil_left_iff.1 hnil] at hdrop
  refine ⟨bs.take as'.length, b, ?_, by rwa [List.dropLast_concat], hb⟩
  rw [← hdrop, List.take_append_drop]

theorem exists_of_forall₂_mem {α β : Type} {R : α → β → Prop} {as : List α} {bs : List β} {a : α}
    (h : List.Forall₂ R as bs) (ha : a ∈ as) : ∃ b ∈ bs, R a b := by
  obtain ⟨i, hi, rfl⟩ := List.mem_iff_getElem.1 ha
  have hi' : i < bs.length := h.length_eq ▸ hi
  exact ⟨bs[i], List.getElem_mem hi', h.get hi hi'⟩

namespace Lexer

/-- The tokens so far own the lines so far, and an open list of tags is the last of them. -/
structure Tiled (source : Text) (lx : Lexer) (rest : List Line) (blocks : List (List Line)) :
    Prop where
  lines : blocks.flatten ++ rest = Line.ofSource source
  owns : List.Forall₂ Token.Owns lx.tokens blocks
  tagsOpen : lx.mode = .tags → ∃ l text more,
    lx.tokens.getLast? = some (Token.ofTags l text more) ∧ blocks.getLast? = some (l :: more) ∧
    l.shape = .tags text ∧ (∀ m ∈ more, m.shape.yields) ∧
    ∀ t ∈ Token.tagTexts text more, t.trimEnd.endsWith [',']

section
variable {source : Text} {lx lx' : Lexer} {l : Line} {rest rest' : List Line}
  {blocks : List (List Line)}

theorem endsWith_of_modeAfterTags {text : Text} (h : modeAfterTags text = .tags) :
    text.trimEnd.endsWith [','] := by
  unfold modeAfterTags at h
  split at h
  case isTrue hcomma => exact hcomma
  case isFalse => cases h

/-- The lines so far end before the next one. -/
theorem Tiled.stop_lt (h : lx.Tiled source (l :: rest) blocks) {m : Line}
    (hm : m ∈ blocks.flatten) : m.span.stop < l.start := by
  have hord := Line.pairwise_ofSource source
  rw [← h.lines, List.pairwise_append] at hord
  exact hord.2.2 m hm l List.mem_cons_self

/-- A line that becomes a token of its own is a block of its own. -/
theorem Tiled.alone (h : lx.Tiled source (l :: rest) blocks) {t : Token} {mode : Mode}
    (hr : Reads l lx.mode t mode) (hb : t.block? = none) :
    Tiled source { lx with tokens := lx.tokens ++ [t], mode := mode } rest
      (blocks ++ [[l]]) := by
  have hlines : (blocks ++ [[l]]).flatten ++ rest = Line.ofSource source := by
    rw [← h.lines]
    simp
  have htags : (∀ text values, t.content ≠ .tags text values) ∨
      ∃ text, t = Token.ofTags l text [] ∧ l.shape = .tags text ∧ mode = modeAfterTags text := by
    cases hr with
    | tags hs =>
      refine .inr ⟨_, ?_, hs, rfl⟩
      simp only [Token.ofTags, Line.span, List.getLast?_nil, Option.getD_none, List.flatMap_nil,
        List.append_nil]
    | heading | blank | prose | underline | step | tableHeader | tableRow | dataTable | tearDown =>
      exact .inl fun _ _ hc => by cases hc
  rcases htags with hne | ⟨text, rfl, hs, rfl⟩
  · refine ⟨hlines, List.rel_append h.owns (.cons (.line hr hb hne) .nil), fun hmode => ?_⟩
    -- only a list of tags leaves the list open
    cases hr with
    | tags hs => exact absurd rfl (hne _ _)
    | dataTable hs hm => exact absurd hmode hm
    | heading | blank | prose | underline | step | tableHeader | tableRow | tearDown => cases hmode
  · have howns : (Token.ofTags l text []).Owns [l] :=
      .tags hs (fun _ hm => absurd hm List.not_mem_nil) fun _ ht => absurd ht List.not_mem_nil
    refine ⟨hlines, List.rel_append h.owns (.cons howns .nil), fun hmode => ?_⟩
    exact ⟨l, text, [], List.getLast?_concat, List.getLast?_concat, hs,
      fun _ hm => absurd hm List.not_mem_nil,
      List.forall_mem_singleton.2 (endsWith_of_modeAfterTags hmode)⟩

/-- The line below prose joins the block of the prose. -/
theorem Tiled.underline (h : lx.Tiled source (l :: rest) blocks) {kind : HeadingKind} {t : Token}
    (hs : l.shape = .underline kind) (hlast : lx.tokens.getLast? = some t) (hp : t.isProse) :
    ∃ blocks', Tiled source
      { lx with tokens := lx.tokens.dropLast ++ [underlined kind l t], mode := .fresh } rest
      blocks' := by
  obtain ⟨before, block, hblocks, hbefore, howns⟩ := exists_of_forall₂_getLast? h.owns hlast
  obtain ⟨above, rfl, hne, rfl⟩ := howns.of_isProse hp
  have hlt := h.stop_lt (m := above) (by simp [hblocks])
  have hspan : above.span.union l.span = ⟨above.start, l.span.stop⟩ := by
    have habove := above.span_start_le_stop
    have hl := l.span_start_le_stop
    simp only [Line.span] at hlt habove hl
    simp only [Span.union, Line.span, Span.mk.injEq]
    omega
  have htoken : (underlined kind l ⟨above.no, above.span, above.text,
      .comment above.text.trimEnd⟩).Owns [above, l] := by
    simp only [underlined, Token.value, hspan, Text.trim_trimEnd]
    exact .underlined hne hs
  refine ⟨before ++ [[above, l]], ?_, List.rel_append hbefore (.cons htoken .nil), fun hm => ?_⟩
  · rw [← h.lines, hblocks]
    simp
  · cases hm

/-- A line that goes on with the tags joins their block. -/
theorem Tiled.continue (h : lx.Tiled source (l :: rest) blocks) (hs : l.shape.yields)
    (hm : lx.mode = .tags) :
    ∃ blocks', Tiled source (lx.continueTags l l.text.trim) rest blocks' := by
  obtain ⟨first, text, more, hlast, hblock, hfirst, hmore, hopen⟩ := h.tagsOpen hm
  obtain ⟨before, block, rfl, hbefore, -⟩ := exists_of_forall₂_getLast? h.owns hlast
  obtain rfl : block = first :: more := by simpa using hblock
  have hfirstlt := h.stop_lt (m := first) (by simp)
  have hstop : (more.getLast?.getD first).span.stop ≤ l.start := by
    refine Nat.le_of_lt (h.stop_lt ?_)
    cases hmore : more.getLast? with
    | none => simp
    | some last => simp [List.mem_of_getLast? hmore]
  have htoken : continued l l.text.trim (Token.ofTags first text more) =
      Token.ofTags first text (more ++ [l]) := by
    refine Token.continued_ofTags ?_ hstop
    have := first.span_start_le_stop
    simp only [Line.span] at hfirstlt this
    omega
  have hall : ∀ m ∈ more ++ [l], m.shape.yields :=
    List.forall_mem_append.2 ⟨hmore, List.forall_mem_singleton.2 hs⟩
  have htexts : Token.tagTexts text (more ++ [l]) = Token.tagTexts text more ++ [l.text.trim] := by
    simp [Token.tagTexts]
  have howns : (Token.ofTags first text (more ++ [l])).Owns (first :: (more ++ [l])) := by
    refine .tags hfirst hall ?_
    rw [htexts, List.dropLast_concat]
    exact hopen
  refine ⟨before ++ [first :: (more ++ [l])], ?_, ?_, fun hmode => ?_⟩
  · rw [← h.lines]
    simp
  · rw [continueTags, hlast, Option.map_some, htoken]
    exact List.rel_append hbefore (.cons howns .nil)
  · refine ⟨first, text, more ++ [l], ?_, List.getLast?_concat, hfirst, hall, ?_⟩
    · rw [continueTags, hlast, Option.map_some, htoken]
      exact List.getLast?_concat
    · rw [htexts]
      exact List.forall_mem_append.2 ⟨hopen,
        List.forall_mem_singleton.2 (endsWith_of_modeAfterTags hmode)⟩

/-- **Each line keeps the tiling.** -/
theorem Tiled.takes (h : lx.Tiled source (l :: rest) blocks)
    (htakes : Takes lx l rest lx' rest') : ∃ blocks', lx'.Tiled source rest' blocks' := by
  cases htakes with
  | alone hr hb => exact ⟨_, h.alone hr hb⟩
  | underline hs hm hlast hprose => exact h.underline hs hlast hprose
  | «continue» hs hm => exact h.continue hs hm
  | @block text scanned opening closing inner left hs hscan ho hi hc =>
    refine ⟨blocks ++ [l :: opening :: (inner ++ [closing])], ?_,
      List.rel_append h.owns (.cons (.block hs hscan ho hi hc) .nil), fun hm => ?_⟩
    · rw [← h.lines]
      simp
    · cases hm

theorem tiled_start (source : Text) : start.Tiled source (Line.ofSource source) [] :=
  ⟨rfl, .nil, fun h => by cases h⟩

end

end Lexer

/-! ## All lines -/

/-- The number of a line says how many lines stand before it. -/
theorem Line.no_eq {source : Text} {before rest : List Line} {l : Line}
    (h : before ++ l :: rest = ofSource source) : l.no = before.length + 1 := by
  have hno := congrArg (·[before.length]?) (map_no_ofSource source)
  rw [← h] at hno
  simpa [List.getElem?_range', Nat.add_comm] using hno

section
variable {source : Text} {tokens : List Token} {blocks : List (List Line)}

theorem lineNo_of_covers (hlines : blocks.flatten = Line.ofSource source)
    (hcovers : List.Forall₂ Token.Covers tokens blocks) {i : Nat} {t : Token}
    (ht : tokens[i]? = some t) : t.lineNo = (blocks.take i).flatten.length + 1 := by
  obtain ⟨hi, rfl⟩ := List.getElem?_eq_some_iff.1 ht
  have hi' : i < blocks.length := hcovers.length_eq ▸ hi
  obtain ⟨first, last, hfirst, -, hno, -⟩ := hcovers.get hi hi'
  obtain ⟨more, hblock⟩ := List.head?_eq_some_iff.1 hfirst
  have hdrop : blocks.drop i = (first :: more) :: blocks.drop (i + 1) := by
    rw [List.drop_eq_getElem_cons hi', ← hblock, List.get_eq_getElem]
  have hsplit : (blocks.take i).flatten ++ first :: (more ++ (blocks.drop (i + 1)).flatten) =
      Line.ofSource source := by
    calc (blocks.take i).flatten ++ first :: (more ++ (blocks.drop (i + 1)).flatten)
        _ = (blocks.take i ++ blocks.drop i).flatten := by
          rw [hdrop, List.flatten_append, List.flatten_cons, List.cons_append]
        _ = Line.ofSource source := by rw [List.take_append_drop, hlines]
  rw [List.get_eq_getElem] at hno
  rw [hno, Line.no_eq hsplit]

/-- The span of a token lies in a source that its lines stand in. -/
theorem Token.Covers.within {t : Token} {block : List Line} (h : t.Covers block)
    (hord : block.Pairwise fun a b => a.span.stop < b.start)
    (hplaced : ∀ l ∈ block, l.StandsIn source) : t.span.Within source := by
  refine ⟨h.start_le_stop hord, ?_, ?_⟩
  · obtain ⟨first, _, hfirst, -, hspan⟩ := h.mem
    rw [hspan]
    exact (hplaced first hfirst).boundary_start
  · obtain ⟨_, last, -, hlast, hspan⟩ := h.mem
    rw [hspan]
    exact (hplaced last hlast).boundary_stop

/-- The spans of tokens are ordered as their blocks are. -/
theorem pairwise_span (hcovers : List.Forall₂ Token.Covers tokens blocks)
    (hord : blocks.flatten.Pairwise fun a b => a.span.stop < b.start) :
    tokens.Pairwise fun t u => t.span.stop < u.span.start := by
  induction hcovers with
  | nil => exact .nil
  | @cons t block tokens blocks ht hrest ih =>
    rw [List.flatten_cons, List.pairwise_append] at hord
    obtain ⟨-, hord, hbefore⟩ := hord
    refine List.pairwise_cons.2 ⟨fun u hu => ?_, ih hord⟩
    obtain ⟨_, last, -, hlast, hspan⟩ := ht.mem
    obtain ⟨ublock, hublock, hucovers⟩ := exists_of_forall₂_mem hrest hu
    obtain ⟨first, _, hfirst, -, huspan⟩ := hucovers.mem
    rw [hspan, huspan]
    exact hbefore last hlast first (List.mem_flatten.2 ⟨ublock, hublock, hfirst⟩)

/-- **Tokens tile the source.** The lines of an accepted source are divided into consecutive blocks,
one for each token, and every token stands for its block. So the first token has line number one,
and each next one the number behind the block before it. The span of a token starts with its first
line and ends with its last one, for headings and tags, or else with its first one, less the
terminator; it lies in the source, between characters, and it ends before the next span starts. -/
theorem tiling_of_tokenize (h : tokenize source = .ok tokens) :
    ∃ blocks, Tiling source tokens blocks := by
  obtain ⟨lx, rfl, blocks, htiled⟩ := Lexer.tokenize_induction
    (motive := fun lx rest => ∃ blocks, lx.Tiled source rest blocks) h
    ⟨[], Lexer.tiled_start source⟩ fun lx l rest lx' rest' htakes hlx => by
      obtain ⟨blocks, hlx⟩ := hlx
      exact hlx.takes htakes
  have hlines : blocks.flatten = Line.ofSource source := by
    rw [← htiled.lines, List.append_nil]
  have hplaced : ∀ l ∈ blocks.flatten, l.StandsIn source := by
    rw [hlines]
    exact fun l hl => Line.standsIn_of_mem hl
  have hord : blocks.flatten.Pairwise fun a b => a.span.stop < b.start := by
    rw [hlines]
    exact Line.pairwise_ofSource source
  have hcovers : List.Forall₂ Token.Covers lx.tokens blocks :=
    htiled.owns.imp fun _ _ => Token.Owns.covers
  refine ⟨blocks, hlines, hplaced, htiled.owns, fun i t => lineNo_of_covers hlines hcovers, hcovers,
    fun t ht => ?_, pairwise_span hcovers hord⟩
  obtain ⟨block, hblock, ht⟩ := exists_of_forall₂_mem hcovers ht
  exact ht.within ((List.pairwise_flatten.1 hord).1 block hblock) fun l hl =>
    hplaced l (List.mem_flatten.2 ⟨block, hblock, hl⟩)

end

/-! ## A source with a block of each kind -/

/-- A heading with its underline, tags on two lines, a step with a block, and a line at the end that
no newline closes, in text with wide characters and carriage returns. -/
def terraceSource : Text :=
  "Café\r\n====\r\ntags: été,\r\nhiver\r\n* noter\n\"\"\"\nà midi\n\"\"\"\n* partir".toList

theorem tiling_of_tokenize_terrace :
    ∃ tokens blocks, tokenize terraceSource = .ok tokens ∧
      tokens.map Token.lineNo = [1, 3, 5, 9] ∧ Tiling terraceSource tokens blocks := by
  have hok : (tokenize terraceSource).toOption.map (·.map Token.lineNo) = some [1, 3, 5, 9] := by
    decide +kernel
  obtain ⟨tokens, htok, hlines⟩ := exists_ok_of_map hok
  obtain ⟨blocks, htiling⟩ := tiling_of_tokenize htok
  exact ⟨tokens, blocks, htok, hlines, htiling⟩

end ScenarioBook
