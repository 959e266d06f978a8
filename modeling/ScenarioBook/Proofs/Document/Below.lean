import ScenarioBook.Proofs.Document.Stand

/-!
# The tables below a step

If the token below a step is a table header, then the step has the table of that header, with its
rows. Outside the teardown this is its only table: the lexer reads no second header among the rows,
and any other token closes the step (`Stand.tables_foldl_of_open`). The last step of the teardown
stays open, so each later header before the next teardown step adds another table to it
(`Token.lateTables`, `Stand.tables_foldl_of_last`). `Document.tables_below_of_parse` says what an
accepted source gives.
-/

set_option autoImplicit false

namespace ScenarioBook

namespace Token

/-- The tables that a step of the teardown takes from the tokens further below: those of the headers
in the teardown, up to its next step. -/
def lateTables (s : Section) : List Token → List TableLines
  | [] => []
  | t :: ts =>
    match t.content with
    | .tableHeader _ _ =>
      if s = .tearDown then ⟨t, rowsBelow ts⟩ :: lateTables s ts else lateTables s ts
    | .step _ _ _ => if s = .tearDown then [] else lateTables s ts
    | _ => lateTables (s.next t) ts

end Token

namespace Stand

variable {st : Stand} {rest : List Token}

theorem foldl_addRow_concat (tables : List TableLines) (lines : TableLines) (rows : List Token) :
    rows.foldl addRow (tables ++ [lines]) =
      tables ++ [{ lines with rows := lines.rows ++ rows }] := by
  induction rows generalizing lines with
  | nil => simp
  | cons t rows ih => simp [addRow_concat, ih]

/-- A step that is closed for good keeps its tables. -/
theorem tables_foldl_of_shut (hopen : st.isOpen = false) (hlast : st.isLast = false)
    (htable : st.tableOpen = false) : (rest.foldl next st).tables = st.tables := by
  induction rest generalizing st with
  | nil => rfl
  | cons t rest ih =>
    have htakes : st.takes = false := by
      unfold takes
      split
      · exact hlast
      · exact hopen
    rw [List.foldl_cons]
    unfold next
    cases t.content with
    | tableHeader => simp only [htakes, Bool.false_eq_true, if_false]; exact ih hopen hlast htable
    | tableRow => simp only [htable, Bool.false_eq_true, if_false]; exact ih rfl hlast rfl
    | dataTable => exact ih hopen hlast htable
    | step => exact ih rfl (by simp [hlast]) rfl
    | heading | comment | tags | tearDown => exact ih rfl hlast rfl

/-- **The last step of the teardown** takes the rows of the open table and the tables below. -/
theorem tables_foldl_of_last (hlast : st.isLast = true) (hopen : st.isOpen = false)
    (htable : st.tableOpen = true → st.current = .tearDown) :
    (rest.foldl next st).tables =
      (if st.tableOpen then (Token.rowsBelow rest).foldl addRow st.tables else st.tables) ++
        Token.lateTables st.current rest := by
  induction rest generalizing st with
  | nil => simp [Token.rowsBelow, Token.lateTables]
  | cons t rest ih =>
    rw [List.foldl_cons]
    have hclosed : st.current ≠ .tearDown → st.tableOpen = false := fun hne =>
      Bool.eq_false_iff.2 (mt htable hne)
    -- a line that is no part of a table: the rows end, and the step is still the last one
    have hother : Token.rowsBelow (t :: rest) = [] →
        st.next t = { st with current := st.current.next t, isOpen := false, tableOpen := false } →
        Token.lateTables st.current (t :: rest) = Token.lateTables (st.current.next t) rest →
        (rest.foldl next (st.next t)).tables =
          (if st.tableOpen then (Token.rowsBelow (t :: rest)).foldl addRow st.tables
            else st.tables) ++ Token.lateTables st.current (t :: rest) := by
      intro hrows hnext hlate
      rw [hnext, hrows, hlate]
      simpa using @ih ⟨st.current.next t, false, st.isLast, false, st.tables⟩ hlast rfl
        fun ho => by cases ho
    cases hc : t.content with
    | tableHeader row cells =>
      have hrows : Token.rowsBelow (t :: rest) = [] := by rw [Token.rowsBelow, hc]
      by_cases hcur : st.current = .tearDown
      · have hnext : st.next t =
            { st with tableOpen := true, tables := st.tables ++ [⟨t, []⟩] } := by
          simp [next, hc, takes, hcur, hlast]
        rw [hnext, hrows]
        refine (@ih ⟨st.current, st.isOpen, st.isLast, true, _⟩ hlast hopen
          fun _ => hcur).trans ?_
        simp [foldl_addRow_concat, Token.lateTables, hc, hcur]
      · have hnext : st.next t = st := by simp [next, hc, takes, hcur, hopen]
        rw [hnext, ih hlast hopen htable]
        simp [hclosed hcur, Token.lateTables, hc, hcur]
    | tableRow row cells =>
      have hlate : Token.lateTables st.current (t :: rest) = Token.lateTables st.current rest := by
        simp [Token.lateTables, hc, Section.next]
      cases ho : st.tableOpen with
      | true =>
        have hnext : st.next t = { st with tables := addRow st.tables t } := by
          simp [next, hc, ho]
        rw [hnext, @ih { st with tables := addRow st.tables t } hlast hopen htable, hlate]
        simp [ho, Token.rowsBelow, hc]
      | false =>
        have hnext : st.next t = { st with isOpen := false } := by simp [next, hc, ho]
        rw [hnext, @ih { st with isOpen := false } hlast rfl htable, hlate]
        simp [ho]
    | dataTable path =>
      have hnext : st.next t = st := by rw [next, hc]
      have hlate : Token.lateTables st.current (t :: rest) = Token.lateTables st.current rest := by
        simp [Token.lateTables, hc, Section.next]
      have hrows : Token.rowsBelow (t :: rest) = Token.rowsBelow rest := by
        rw [Token.rowsBelow, hc]
      rw [hnext, ih hlast hopen htable, hlate, hrows]
    | step value args block =>
      have hrows : Token.rowsBelow (t :: rest) = [] := by rw [Token.rowsBelow, hc]
      by_cases hcur : st.current = .tearDown
      · have hnext : st.next t = ⟨st.current, false, false, false, st.tables⟩ := by
          simp [next, hc, hcur]
        rw [hnext, tables_foldl_of_shut rfl rfl rfl, hrows]
        simp [Token.lateTables, hc, hcur]
      · have hnext : st.next t = ⟨st.current, false, true, false, st.tables⟩ := by
          simp [next, hc, hcur, hlast]
        rw [hnext, @ih ⟨st.current, false, true, false, st.tables⟩ rfl rfl fun ho => by cases ho]
        simp [hclosed hcur, Token.lateTables, hc, hcur]
    | heading | comment | tags | tearDown =>
      refine hother ?_ ?_ ?_
      · rw [Token.rowsBelow, hc]
      · rw [next, hc]
      · rw [Token.lateTables, hc]

/-- **An open step** takes the rows of its table and nothing else, if no header stands among the
rows. -/
theorem tables_foldl_of_open {seen : List Token} (hlast : st.isLast = false)
    (htable : st.tableOpen = true) (hin : Token.inTable seen = true)
    (hheaders : ∀ before t, before ++ [t] <+: seen ++ rest → t.isHeader = true →
      Token.inTable before = false) :
    (rest.foldl next st).tables = (Token.rowsBelow rest).foldl addRow st.tables := by
  induction rest generalizing st seen with
  | nil => rfl
  | cons t rest ih =>
    rw [List.foldl_cons]
    have hheaders' : ∀ before u, before ++ [u] <+: (seen ++ [t]) ++ rest → u.isHeader = true →
        Token.inTable before = false := by
      simpa using hheaders
    have hin' : t.isTableLine = true ∨ t.isReference = true →
        Token.inTable (seen ++ [t]) = true := by
      intro ht
      rw [Token.inTable_concat, hin]
      simpa using ht
    cases hc : t.content with
    | tableHeader row cells =>
      have hnone := hheaders seen t ⟨rest, by simp⟩ (by rw [Token.isHeader, hc])
      rw [hin] at hnone
      cases hnone
    | tableRow row cells =>
      have hnext : st.next t = { st with tables := addRow st.tables t } := by
        simp [next, hc, htable]
      have hrows : Token.rowsBelow (t :: rest) = t :: Token.rowsBelow rest := by
        rw [Token.rowsBelow, hc]
      rw [hnext, hrows]
      exact @ih { st with tables := addRow st.tables t } (seen ++ [t]) hlast htable
        (hin' (.inl (by rw [Token.isTableLine, hc]))) hheaders'
    | dataTable path =>
      have hnext : st.next t = st := by rw [next, hc]
      have hrows : Token.rowsBelow (t :: rest) = Token.rowsBelow rest := by
        rw [Token.rowsBelow, hc]
      rw [hnext, ih hlast htable (hin' (.inr (by rw [Token.isReference, hc]))) hheaders', hrows]
    | heading | comment | tags | tearDown | step =>
      have hrows : Token.rowsBelow (t :: rest) = [] := by rw [Token.rowsBelow, hc]
      rw [hrows, List.foldl_nil]
      exact (tables_foldl_of_shut (by rw [next, hc]) (by rw [next, hc]; simp [hlast])
        (by rw [next, hc])).trans (by rw [next, hc])

/-- The tables of a step with a header right below it. -/
theorem tables_of_header {before : List Token} {t header : Token} {s : Section} {row : Text}
    {cells : List Text} (hc : header.content = .tableHeader row cells)
    (hheaders : ∀ before' u, before' ++ [u] <+: before ++ t :: header :: rest → u.isHeader = true →
      Token.inTable before' = false) :
    ((header :: rest).foldl next (start s)).tables =
      ⟨header, Token.rowsBelow rest⟩ ::
        if s = .tearDown then Token.lateTables .tearDown rest else [] := by
  have hnext : (start s).next header =
      { start s with tableOpen := true, tables := [⟨header, []⟩] } := by
    cases s <;> simp [next, hc, start, takes]
  rw [List.foldl_cons, hnext]
  have hone : (Token.rowsBelow rest).foldl addRow [⟨header, []⟩] =
      [⟨header, Token.rowsBelow rest⟩] := foldl_addRow_concat [] ⟨header, []⟩ _
  by_cases hs : s = .tearDown
  · rw [tables_foldl_of_last (by simp [start, hs]) (by simp [start, hs]) fun _ => hs]
    simp [start, hs, hone]
  · have hin : Token.inTable ((before ++ [t]) ++ [header]) = true := by
      rw [Token.inTable_concat, Token.isTableLine, hc]
      rfl
    rw [tables_foldl_of_open (by simp [start, hs]) rfl hin (by simpa using hheaders), if_neg hs]
    exact hone

end Stand

namespace Document

/-- **A table goes to the step that it follows.** In an accepted source a step token below the
heading with a header right below it makes one step, and this step has the table of the header
behind its own arguments: the cells of the header, and a row for each line of the table that is not
made of dashes, cut or filled up to the number of cells. Outside the teardown that is the last
argument. In the teardown the tables of later headers follow, up to the next step. Of context steps
this is said only if no teardown marker stands before the heading. -/
theorem tables_below_of_parse {source fileName : Text} {tokens before after : List Token}
    {t header : Token} {dictionary : Dictionary} {files : FileSource} {parsed : Parsed Document}
    {value row : Text} {args : List RawArg} {block : Option Text} {cells : List Text}
    (htok : tokenize source = .ok tokens)
    (h : Document.parse source fileName dictionary files = .ok parsed)
    (hsplit : tokens = before ++ t :: header :: after) (ht : t.content = .step value args block)
    (hheader : header.content = .tableHeader row cells)
    (hhead : ∃ heading ∈ before, heading.isSpecHeading = true)
    (hmarkers : Token.sectionAfter before = .context →
      ∀ m ∈ Token.beforeHeading tokens, m.isTearDown = false) :
    let own := (t.readStep .empty files value args block).1
    ∃ s table more, parsed.document.stepsAt t.lineNo = [s] ∧ s.hasInlineTable = true ∧
      s.value = own.value ++ ' ' :: placeholder ++
        (more.map fun _ => ' ' :: placeholder).flatten ∧
      s.args = own.args ++ .table table :: more.map .table ∧
      table.lineNo = header.lineNo ∧ table.headers = cells ∧
      table.rows = ((Token.rowsBelow after).filter (!·.isSeparator)).map (fun u =>
        Table.fit cells.length (u.rowCells files)) ∧
      List.Forall₂ (TableLines.Gives (Token.rowCells files))
        (if Token.sectionAfter before = .tearDown then Token.lateTables .tearDown after else [])
        more := by
  have hsection : Token.sectionAfter before ≠ .preamble := by
    rw [Ne, Token.sectionAfter_eq_preamble_iff, Token.afterHeading, List.dropWhile_eq_nil_iff]
    intro hall
    obtain ⟨heading, hin, hspec⟩ := hhead
    simpa [hspec] using hall heading hin
  obtain ⟨s, hs, tables, htables, rfl⟩ := stand_of_parse htok h hsplit ht hsection hmarkers
  rw [Stand.tables_of_header hheader fun before' u hpre hu =>
    Token.not_inTable_of_header htok (hsplit ▸ hpre) hu] at htables
  obtain ⟨table, more, htable, hmore, rfl⟩ := List.forall₂_cons_left_iff.1 htables
  obtain ⟨hargs, hvalue, hinline⟩ := Step.foldl_addInlineTable
    (t.readStep .empty files value args block).1 (table :: more)
  obtain ⟨row', hrow⟩ := htable.header
  obtain ⟨-, rfl⟩ := Token.Content.tableHeader.inj (hheader.symm.trans hrow)
  exact ⟨_, table, more, hs, hinline.trans (by simp), hvalue.trans (by simp), hargs, htable.lineNo,
    rfl, htable.rows, hmore⟩

/-- Two tokens in a row, with the tokens before them and behind them. -/
theorem eq_take_append_drop {tokens : List Token} {i : Nat} {t header : Token}
    (ht : tokens[i]? = some t) (hheader : tokens[i + 1]? = some header) :
    tokens = tokens.take i ++ t :: header :: tokens.drop (i + 2) := by
  obtain ⟨hlt, rfl⟩ := List.getElem?_eq_some_iff.1 ht
  obtain ⟨hlt', rfl⟩ := List.getElem?_eq_some_iff.1 hheader
  rw [← List.drop_eq_getElem_cons hlt', ← List.drop_eq_getElem_cons hlt, List.take_append_drop]

/-- A step with a table in each section, and in the teardown with a second one. -/
def supperSource : Text :=
  ("# Supper\n* lay\n|for|\n|-|\n|ann|\n## Guests\n* seat\n|who|at|\n|bob|\n|eve|1|\n" ++
    "___\n* wash\n|what|\n|cups|\n\n|how|\n|hot|\n").toList

theorem tables_below_of_parse_supper :
    ∃ tokens parsed, tokenize supperSource = .ok tokens ∧
      Document.parse supperSource [] .empty noFiles = .ok parsed ∧
      ∀ i ∈ [1, 6, 11], ∃ t header s table, tokens[i]? = some t ∧ tokens[i + 1]? = some header ∧
        parsed.document.stepsAt t.lineNo = [s] ∧ s.hasInlineTable = true ∧
        .table table ∈ s.args ∧ table.headers = header.args := by
  have hlines : ((tokenize supperSource).toOption.any fun tokens =>
      decide ((∀ i ∈ [1, 6, 11], (∃ t ∈ tokens[i]?, t.isStep = true) ∧
          (∃ header ∈ tokens[i + 1]?, header.isHeader = true) ∧
          ∃ heading ∈ tokens.take i, heading.isSpecHeading = true) ∧
        ∀ m ∈ Token.beforeHeading tokens, m.isTearDown = false)) = true := by
    decide +kernel
  have hread : (Document.parse supperSource [] .empty noFiles).toOption.any (fun _ => true) =
      true := by
    decide +kernel
  obtain ⟨tokens, htok, hlines⟩ := exists_ok_of_any hlines
  obtain ⟨parsed, hparse, -⟩ := exists_ok_of_any hread
  obtain ⟨hsteps, hmarkers⟩ := of_decide_eq_true hlines
  refine ⟨tokens, parsed, htok, hparse, fun i hi => ?_⟩
  obtain ⟨⟨t, ht, hstep⟩, ⟨header, hheader, hhead⟩, hspec⟩ := hsteps i hi
  have hsplit := eq_take_append_drop ht hheader
  unfold Token.isStep at hstep
  unfold Token.isHeader at hhead
  split at hstep
  case h_2 => cases hstep
  case h_1 hc =>
    split at hhead
    case h_2 => cases hhead
    case h_1 hc' =>
      obtain ⟨s, table, more, hs, hinline, -, hargs, -, hheaders, -⟩ :=
        tables_below_of_parse htok hparse hsplit hc hc' hspec fun _ => hmarkers
      exact ⟨t, header, s, table, ht, hheader, hs, hinline, by simp [hargs],
        by rw [hheaders, Token.args, hc']⟩

/-- A step of the teardown with two tables. -/
def lateSource : Text := "# H\n___\n* a\n|x|\n|1|\n\n|y|\n|2|\n".toList

/-- The last argument of the step is the table of the second header. -/
theorem not_last_below_tearDown_step :
    ¬ ∀ tokens parsed before t header after, tokenize lateSource = .ok tokens →
      Document.parse lateSource [] .empty noFiles = .ok parsed →
      tokens = before ++ t :: header :: after → t.isStep = true → header.isHeader = true →
      (∃ heading ∈ before, heading.isSpecHeading = true) →
      ∃ s table, parsed.document.stepsAt t.lineNo = [s] ∧
        s.args.getLast? = some (.table table) ∧ table.headers = header.args := by
  have hok : ((tokenize lateSource).toOption.any fun tokens =>
      (Document.parse lateSource [] .empty noFiles).toOption.any fun parsed =>
        decide ((∃ heading ∈ tokens.take 2, heading.isSpecHeading = true) ∧
          ∃ t ∈ tokens[2]?, ∃ header ∈ tokens[3]?, t.isStep = true ∧ header.isHeader = true ∧
            ∀ s ∈ parsed.document.stepsAt t.lineNo, ∀ arg ∈ s.args.getLast?,
              arg.table?.map Table.headers ≠ some header.args)) = true := by
    decide +kernel
  obtain ⟨tokens, htok, hok⟩ := exists_ok_of_any hok
  obtain ⟨parsed, hparse, hok⟩ := exists_ok_of_any hok
  obtain ⟨hspec, t, ht, header, hheader, hstep, hhead, hlast⟩ := of_decide_eq_true hok
  intro h
  obtain ⟨s, table, hs, hargs, hheaders⟩ := h _ parsed _ t header _ htok hparse
    (eq_take_append_drop ht hheader) hstep hhead hspec
  exact hlast s (by simp [hs]) _ hargs (congrArg some hheaders)

end Document

end ScenarioBook
