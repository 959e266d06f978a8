import ScenarioBook.Dictionary
import ScenarioBook.Proofs.Concept.Stretched
import ScenarioBook.Proofs.Line.CarriageReturn
import ScenarioBook.Proofs.Token.Placed

/-!
# Line endings do not matter

A source with carriage returns before its newlines gives the same tokens, the same documents and
concepts, and the same diagnostics as without them, with all spans at the offsets that the longer
source puts them at (`ReadAlike`, `readAlike_crlf`). Nothing that is kept from a line holds its
ending: neither a block below a step nor a line that is warned about and kept as a comment.
-/

set_option autoImplicit false

namespace ScenarioBook

/-- The source `source'` is read like `source`, with all spans at other offsets: it has the same
tokens, and with every dictionary and all files it gives the same document, the same concepts and
the same diagnostics, or is rejected with the same diagnostics. -/
structure ReadAlike (g : Nat → Nat) (source source' : Text) : Prop where
  tokens : tokenize source' = stretchOutcome g (List.map (Token.stretched g)) (tokenize source)
  document : ∀ (fileName : Text) (dictionary : Dictionary) (files : FileSource),
    Document.parse source' fileName dictionary files =
      stretchOutcome g (Parsed.stretched g) (Document.parse source fileName dictionary files)
  concepts : ∀ (fileName : Text) (files : FileSource),
    Concept.parse source' fileName files =
      stretchOutcome g (Parsed.stretched g) (Concept.parse source fileName files)

section
variable {g : Nat → Nat} {source source' : Text}

/-- What is built from tokens is the same if the tokens are. -/
theorem readAlike_of_tokens
    (h : tokenize source' = stretchOutcome g (List.map (Token.stretched g)) (tokenize source)) :
    ReadAlike g source source' where
  tokens := h
  document fileName dictionary files := by
    rw [Document.parse, h]
    refine bind_stretchOutcome (fun tokens => ?_) _
    rw [Document.ofTokens_stretched]
    cases Document.ofTokens fileName files tokens with
    | error rejection => rfl
    | ok parsed => rfl
  concepts fileName files := by
    rw [Concept.parse, h]
    exact bind_stretchOutcome (Concept.ofTokens_stretched fileName files) _

/-- A token moves by one less than the number of its line. -/
theorem Token.Placed.crlfOffset_start {t : Token} (h : t.Placed source) :
    source.crlfOffset t.span.start = t.span.start + (t.lineNo - 1) := by
  obtain ⟨l, hl, hstarts⟩ := h.starts
  rw [hstarts.start, hstarts.no, Line.crlfOffset_start (Line.standsIn_of_mem hl)]

/-- **Line endings do not matter.** Carriage returns before all newlines of a source that has none
change nothing but the spans, and the span of a token then starts later by one less than the number
of its line. -/
theorem readAlike_crlf (h : '\r' ∉ source) :
    ReadAlike source.crlfOffset source source.crlf ∧
      ∀ tokens, tokenize source = .ok tokens → ∀ t ∈ tokens,
        (t.stretched source.crlfOffset).span.start = t.span.start + (t.lineNo - 1) :=
  ⟨readAlike_of_tokens (tokenize_crlf h), fun _ htokens t ht =>
    (placed_of_tokenize htokens t ht).crlfOffset_start⟩

end

/-- A document with an underlined heading, tags on two lines, a block of two lines and, in the
scenario, a table that is warned about. -/
def letterSource : Text :=
  "Été\n===\ntags: a,\nb\n* écrire\n\"\"\"\nchère\n\nà toi\n\"\"\"\n## Envoi\n|a|\n* poster".toList

/-- The letter has the same block in both forms. -/
theorem readAlike_crlf_letter :
    '\r' ∉ letterSource ∧ ReadAlike letterSource.crlfOffset letterSource letterSource.crlf ∧
      (tokenize letterSource).toOption.map (·.map fun t => (t.lineNo, t.span.start, t.block?)) =
        some [(1, 0, none), (3, 10, none), (5, 21, some "chère\n\nà toi".toList),
          (11, 54, none), (12, 63, none), (13, 67, none)] ∧
      (tokenize letterSource.crlf).toOption.map (·.map fun t =>
        (t.lineNo, t.span.start, t.block?)) =
        some [(1, 0, none), (3, 12, none), (5, 25, some "chère\n\nà toi".toList),
          (11, 64, none), (12, 74, none), (13, 79, none)] := by
  have h : '\r' ∉ letterSource := by decide +kernel
  exact ⟨h, (readAlike_crlf h).1, by decide +kernel, by decide +kernel⟩

end ScenarioBook
