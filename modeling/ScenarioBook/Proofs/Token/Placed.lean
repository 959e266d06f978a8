import ScenarioBook.Proofs.Token.Origin
import ScenarioBook.Proofs.Token.Tiling

/-!
# Where tokens stand

Each token of an accepted source stands on a line of it, the first of those it owns: it has the
number of that line, its span starts with it, and its text is a part of it
(`placed_of_tokenize`).
-/

set_option autoImplicit false

namespace ScenarioBook

namespace Token

/-- The token starts with the line and has its number and its text, or a part of that. The title of
a heading is a part of it as well. -/
structure StartsOn (t : Token) (l : Line) : Prop where
  no : t.lineNo = l.no
  start : t.span.start = l.start
  text : t.lineText <:+: l.text
  title : ∀ kind title, t.content = .heading kind title → title <:+: l.text

/-- The token starts on a line of the source, and its span lies in the source. -/
structure Placed (source : Text) (t : Token) : Prop where
  starts : ∃ l ∈ Line.ofSource source, t.StartsOn l
  within : t.span.Within source

theorem startsOn_of_reads {l : Line} {mode mode' : Mode} {t : Token}
    (h : Lexer.Reads l mode t mode') : t.StartsOn l := by
  cases h with
  | step hs => exact ⟨rfl, rfl, Shape.step_isInfix hs, nofun⟩
  | heading hs =>
    refine ⟨rfl, rfl, List.infix_refl _, fun kind title hc => ?_⟩
    cases hc
    exact (Shape.title_of_heading hs).2
  | blank | prose | underline | tags | tableHeader | tableRow | dataTable | tearDown =>
    exact ⟨rfl, rfl, List.infix_refl _, nofun⟩

/-- A token starts on the first line that it owns. -/
theorem Owns.startsOn {t : Token} {block : List Line} (h : t.Owns block) :
    ∃ l ∈ block, t.StartsOn l := by
  cases h with
  | line hr => exact ⟨_, List.mem_singleton_self _, startsOn_of_reads hr⟩
  | @underlined above =>
    refine ⟨above, List.mem_cons_self, rfl, rfl, List.infix_refl _, fun kind title hc => ?_⟩
    cases hc
    exact Text.trim_isInfix above.text
  | tags => exact ⟨_, List.mem_cons_self, rfl, rfl, List.infix_refl _, nofun⟩
  | block hs => exact ⟨_, List.mem_cons_self, rfl, rfl, Shape.step_isInfix hs, nofun⟩

end Token

/-- The lines of an accepted source are divided among its tokens. -/
theorem owns_of_tokenize {source : Text} {tokens : List Token} (h : tokenize source = .ok tokens) :
    ∃ blocks : List (List Line), blocks.flatten = Line.ofSource source ∧
      List.Forall₂ Token.Owns tokens blocks := by
  obtain ⟨lx, rfl, blocks, htiled⟩ := Lexer.tokenize_induction
    (motive := fun lx rest => ∃ blocks, lx.Tiled source rest blocks) h
    ⟨[], Lexer.tiled_start source⟩ fun _ _ _ _ _ htakes ⟨_, hlx⟩ => hlx.takes htakes
  exact ⟨blocks, by rw [← htiled.lines, List.append_nil], htiled.owns⟩

/-- **Tokens stand on lines of their source.** -/
theorem placed_of_tokenize {source : Text} {tokens : List Token}
    (h : tokenize source = .ok tokens) : ∀ t ∈ tokens, t.Placed source := by
  intro t ht
  obtain ⟨blocks, hlines, howns⟩ := owns_of_tokenize h
  obtain ⟨block, hblock, ht⟩ := exists_of_forall₂_mem howns ht
  have hmem : ∀ l ∈ block, l ∈ Line.ofSource source := fun l hl =>
    hlines ▸ List.mem_flatten.2 ⟨block, hblock, hl⟩
  have hord : blocks.flatten.Pairwise fun a b => a.span.stop < b.start :=
    hlines ▸ Line.pairwise_ofSource source
  obtain ⟨l, hl, hstarts⟩ := ht.startsOn
  exact ⟨⟨l, hmem l hl, hstarts⟩,
    ht.covers.within ((List.pairwise_flatten.1 hord).1 block hblock) fun m hm =>
      Line.standsIn_of_mem (hmem m hm)⟩

/-- The first token of a source with lines has the number one. -/
theorem exists_first_of_tokenize {source : Text} {tokens : List Token}
    (h : tokenize source = .ok tokens) (hne : Line.ofSource source ≠ []) :
    ∃ t ∈ tokens, t.lineNo = 1 := by
  obtain ⟨blocks, hlines, howns⟩ := owns_of_tokenize h
  cases howns with
  | nil => exact absurd hlines.symm hne
  | @cons t block tokens blocks ht hrest =>
    refine ⟨t, List.mem_cons_self, ?_⟩
    have hcovers : List.Forall₂ Token.Covers (t :: tokens) (block :: blocks) :=
      (List.Forall₂.cons ht hrest).imp fun _ _ => Token.Owns.covers
    simpa using lineNo_of_covers hlines hcovers (i := 0) rfl

end ScenarioBook
