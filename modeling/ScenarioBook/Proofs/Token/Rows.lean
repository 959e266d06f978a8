import ScenarioBook.Proofs.Token.Consume
import ScenarioBook.Proofs.Token.Kinds

/-!
# Which rows belong to a header

The rows of a table are the row tokens below its header, up to the first token that is neither a row
nor a `table:` line (`Token.rowsBelow`). No second header stands among them: the lexer reads a table
line as a header only if no table is open, and while the last token, `table:` lines aside, is a line
of a table, one is (`Token.not_inTable_of_header`).
-/

set_option autoImplicit false

namespace ScenarioBook

namespace Token

/-- The last token that is no `table:` line is a line of a table. -/
def inTable (tokens : List Token) : Bool := endsOn isTableLine tokens

/-- The rows at the start of the tokens. -/
def rowsBelow : List Token → List Token
  | [] => []
  | t :: ts =>
    match t.content with
    | .tableRow _ _ => t :: rowsBelow ts
    | .dataTable _ => rowsBelow ts
    | _ => []

theorem inTable_concat (tokens : List Token) (t : Token) :
    inTable (tokens ++ [t]) = (t.isTableLine || (inTable tokens && t.isReference)) :=
  endsOn_concat isTableLine tokens t

/-- Any other token closes the table. -/
theorem inTable_concat_of_other (tokens : List Token) {t : Token} (hline : t.isTableLine = false)
    (href : t.isReference = false) : inTable (tokens ++ [t]) = false := by
  rw [inTable_concat, hline, href, Bool.and_false, Bool.or_false]

/-! ## The lexer -/

/-- What the tokens so far say about an open table, and no header among the rows. -/
structure Apart (lx : Lexer) : Prop where
  tableOpen : inTable lx.tokens = true → lx.mode = .table
  header : ∀ seen t, seen ++ [t] <+: lx.tokens → t.isHeader = true → inTable seen = false

section
variable {lx : Lexer} {l : Line} {t last : Token}

/-- One more token. -/
theorem Apart.push (h : Apart lx) {mode : Mode}
    (hopen : inTable (lx.tokens ++ [t]) = true → mode = .table)
    (ht : t.isHeader = true → lx.mode ≠ .table) :
    Apart { lx with tokens := lx.tokens ++ [t], mode := mode } where
  tableOpen := hopen
  header seen u hseen hu := by
    rcases List.prefix_concat_iff.1 hseen with heq | hseen
    · obtain ⟨rfl, rfl⟩ := List.append_inj' heq rfl |>.imp_right (List.singleton_inj.1 ·)
      exact Bool.eq_false_iff.2 fun hin => ht hu (h.tableOpen hin)
    · exact h.header seen u hseen hu

/-- The last token is replaced by one that is no header unless it was one, outside tables. -/
theorem Apart.replace (h : Apart lx) (hlast : lx.tokens.getLast? = some last)
    (hm : lx.mode ≠ .table) (ht : t.isHeader = true → last.isHeader = true)
    (hline : t.isTableLine = true → last.isTableLine = true)
    (href : t.isReference = true → last.isReference = true) {mode : Mode} :
    Apart { lx with tokens := lx.tokens.dropLast ++ [t], mode := mode } := by
  obtain ⟨tokens, htokens⟩ := List.getLast?_eq_some_iff.1 hlast
  have hclosed := mt h.tableOpen hm
  rw [htokens, inTable_concat] at hclosed
  refine ⟨fun hin => ?_, fun seen u hseen hu => ?_⟩
  · rw [htokens, List.dropLast_concat, inTable_concat] at hin
    refine absurd ?_ hclosed
    simp only [Bool.or_eq_true, Bool.and_eq_true] at hin ⊢
    exact hin.imp hline (And.imp_right href)
  · rw [htokens, List.dropLast_concat] at hseen
    rcases List.prefix_concat_iff.1 hseen with heq | hseen
    · obtain ⟨rfl, rfl⟩ := List.append_inj' heq rfl |>.imp_right (List.singleton_inj.1 ·)
      exact h.header seen last (htokens ▸ List.prefix_rfl) (ht hu)
    · exact h.header seen u (htokens ▸ hseen.trans (List.prefix_append _ _)) hu

theorem continued_kind (text : Text) :
    (Lexer.continued l text t).isHeader = t.isHeader ∧
      (Lexer.continued l text t).isTableLine = t.isTableLine ∧
      (Lexer.continued l text t).isReference = t.isReference := by
  obtain ⟨no, span, lineText, content⟩ := t
  cases content <;> exact ⟨rfl, rfl, rfl⟩

/-- **Each line keeps headers apart from rows.** -/
theorem Apart.takes {lx' : Lexer} {rest rest' : List Line} (h : Apart lx)
    (htakes : Lexer.Takes lx l rest lx' rest') : Apart lx' := by
  cases htakes with
  | alone hr hb =>
    cases hr with
    | tableHeader hs hm ht hf => exact h.push (fun _ => rfl) fun _ => ht
    | tableRow hs ht => exact h.push (fun _ => rfl) fun hu => by cases hu
    | dataTable hs hm hp =>
      refine h.push (fun hin => ?_) fun hu => by cases hu
      rw [inTable_concat] at hin
      exact h.tableOpen (by simpa [isTableLine, isReference] using hin)
    | heading | blank | prose | underline | step | tags | tearDown =>
      refine h.push (fun hin => ?_) fun hu => by cases hu
      rw [inTable_concat_of_other _ rfl rfl] at hin
      cases hin
  | block =>
    refine h.push (fun hin => ?_) fun hu => by cases hu
    rw [inTable_concat_of_other _ rfl rfl] at hin
    cases hin
  | underline hs hm hlast hprose =>
    exact h.replace hlast (by rw [hm]; decide) (fun hu => by cases hu) (fun hu => by cases hu)
      fun hu => by cases hu
  | «continue» hs hm =>
    have hne : lx.mode ≠ .table := by rw [hm]; decide
    cases hlast : lx.tokens.getLast? with
    | none =>
      rw [List.getLast?_eq_none_iff] at hlast
      simp only [Lexer.continueTags, hlast]
      exact ⟨fun hin => (by cases hin), fun seen u hseen => by simp at hseen⟩
    | some last =>
      obtain ⟨hheader, hline, href⟩ := continued_kind (l := l) (t := last) l.text.trim
      simp only [Lexer.continueTags, hlast, Option.map_some, Option.toList_some]
      exact h.replace hlast hne (hheader ▸ id) (hline ▸ id) (href ▸ id)

end

/-- **No header stands among the rows of a table.** -/
theorem not_inTable_of_header {source : Text} {tokens : List Token}
    (h : tokenize source = .ok tokens) {seen : List Token} {t : Token}
    (hseen : seen ++ [t] <+: tokens) (ht : t.isHeader = true) : inTable seen = false := by
  obtain ⟨lx, rfl, hapart⟩ := Lexer.tokenize_induction (motive := fun lx _ => Apart lx) h
    ⟨fun hin => (by cases hin), fun seen t hseen => by simp [Lexer.start] at hseen⟩
    fun lx l rest lx' rest' htakes hlx => hlx.takes htakes
  exact hapart.header seen t hseen ht

end Token

end ScenarioBook
