import ScenarioBook.Proofs.Layout.Texts
import ScenarioBook.Proofs.StepText.Pairing

/-!
# A scanned step is written as a text that scans the same

Scanning a text gives a value and arguments. A step with this value and these arguments is written
as one line, and scanning that line gives the value and the arguments again (`scan_written_step`).

The written line need not be the text: placeholders that come from escaped braces are found first
where they stand first, and then an argument is written in another place. The value does not tell
the difference. What is used of it is that it is tight and whole (`tight_canonical`,
`whole_canonical`), that no typed placeholder stands in it (`kinds_canonical`), and that it has a
placeholder for each argument (`placeholderCount_segments`). All this is read off the pieces of the
text, once no backslash dangles at its end.
-/

set_option autoImplicit false

namespace ScenarioBook

/-- The argument is read back from between angle brackets. Between quotes any text is. -/
def RawArg.Plain (a : RawArg) : Prop :=
  match a.kind with
  | .literal => True
  | .dynamic => '>' ∉ a.text ∧ '\\' ∉ a.text ∧ ':' ∉ a.text
  | .special => '>' ∉ a.text ∧ '\\' ∉ a.text

instance : DecidablePred RawArg.Plain
  | ⟨.literal, _⟩ => isTrue trivial
  | ⟨.dynamic, text⟩ => inferInstanceAs (Decidable ('>' ∉ text ∧ '\\' ∉ text ∧ ':' ∉ text))
  | ⟨.special, text⟩ => inferInstanceAs (Decidable ('>' ∉ text ∧ '\\' ∉ text))

namespace StepText

/-! ## Dangling backslashes -/

/-- The text ends with a backslash that has nothing behind it to escape. -/
def dangles : Text → Bool
  | [] => false
  | ['\\'] => true
  | '\\' :: _ :: r => dangles r
  | _ :: r => dangles r

theorem dangles_cons {c : Char} (hb : c ≠ '\\') (r : Text) : dangles (c :: r) = dangles r := by
  rw [dangles.eq_4 _ _ (fun hc => absurd hc hb) fun _ _ hc => absurd hc hb]

theorem dangles_argChars {close : Char} (chars : List (ArgChar close)) (rest : Text) :
    dangles (chars.flatMap ArgChar.written ++ rest) = dangles rest := by
  induction chars with
  | nil => rfl
  | cons c chars ih =>
    rw [List.flatMap_cons, List.append_assoc]
    cases c with
    | plain c hb hc => rw [ArgChar.written, List.singleton_append, dangles_cons hb, ih]
    | escaped c => rw [ArgChar.written, List.cons_append, List.singleton_append, dangles, ih]

theorem dangles_written (p : Piece) (rest : Text) : dangles (p.written ++ rest) = dangles rest := by
  cases p with
  | plain c h =>
    have hb : c ≠ '\\' := by rintro rfl; exact h (by simp)
    exact dangles_cons hb rest
  | escaped c => rw [Piece.written, List.cons_append, List.singleton_append, dangles]
  | quoted chars | angled chars =>
    rw [Piece.written, List.cons_append, List.append_assoc, dangles_cons (by decide),
      dangles_argChars, List.singleton_append, dangles_cons (by decide)]

/-- Pieces leave nothing to escape. -/
theorem dangles_spell (pieces : List Piece) (rest : Text) :
    dangles (spell pieces ++ rest) = dangles rest := by
  induction pieces with
  | nil => rfl
  | cons p pieces ih =>
    rw [spell, List.flatMap_cons, List.append_assoc, dangles_written, ← spell, ih]

theorem eq_nil_of_ends {last : Text} (hl : Ends last) (hd : dangles last = false) : last = [] := by
  rcases hl with rfl | rfl
  · rfl
  · cases hd

/-! ## The value of a text -/

/-- The canonical text of the pieces. -/
def canonical (pieces : List Piece) : Text := pieces.flatMap fun p => p.segment.canonical

theorem canonical_ne_nil (p : Piece) : p.segment.canonical ≠ [] := by
  cases p with
  | plain | quoted | angled => exact List.cons_ne_nil _ _
  | escaped c =>
    rw [Piece.segment, Segment.canonical]
    split <;> exact List.cons_ne_nil _ _

theorem not_isBlank_of_isReserved {c : Char} (h : isReserved c) : ¬ Text.isBlank c := by
  obtain rfl | rfl : c = '{' ∨ c = '}' := by simpa [isReserved] using h
  all_goals decide

/-- A piece means something that starts like the piece, or with no blank. -/
theorem head?_canonical {p : Piece} {c : Char} (h : p.segment.canonical.head? = some c) :
    p.written.head? = some c ∨ ¬ Text.isBlank c := by
  cases p with
  | plain => exact .inl h
  | quoted | angled =>
    cases h
    exact .inr (by decide)
  | escaped d =>
    rw [Piece.segment, Segment.canonical] at h
    split at h
    case isTrue hd =>
      cases h
      exact .inr (not_isBlank_of_isReserved hd)
    case isFalse => exact .inl h

/-- A piece means something that ends like the piece, or with no blank. -/
theorem getLast?_canonical {p : Piece} {c : Char} (h : p.segment.canonical.getLast? = some c) :
    p.written.getLast? = some c ∨ ¬ Text.isBlank c := by
  cases p with
  | plain => exact .inl h
  | quoted | angled =>
    cases h
    exact .inr (by decide)
  | escaped d =>
    rw [Piece.segment, Segment.canonical] at h
    split at h <;> exact .inl h

/-- **A tight text has a tight value.** -/
theorem tight_canonical {pieces : List Piece} (h : (spell pieces).Tight) :
    (canonical pieces).Tight := by
  refine Text.tight_flatMap (fun p hp => ⟨canonical_ne_nil p, fun c hc => ?_⟩)
    fun p hp => ⟨canonical_ne_nil p, fun c hc => ?_⟩
  · obtain ⟨pieces, rfl⟩ := List.head?_eq_some_iff.1 hp
    refine (head?_canonical hc).elim (fun hw => h.1 c ?_) id
    rw [spell, List.flatMap_cons, List.head?_append, hw]
    rfl
  · obtain ⟨pieces, rfl⟩ := List.getLast?_eq_some_iff.1 hp
    refine (getLast?_canonical hc).elim (fun hw => h.2 c ?_) id
    rw [spell, List.flatMap_append, List.flatMap_singleton, List.getLast?_append, hw]
    rfl

theorem whole_placeholder_append (r : Text) : whole (placeholder ++ r) = whole r := by
  rw [placeholder, List.cons_append, List.cons_append, List.nil_append, whole]

theorem whole_closing (r : Text) : whole ('}' :: r) = whole r := by
  rw [whole.eq_5 _ _ (fun h => absurd h (by decide)) (fun _ _ h => absurd h (by decide))
    fun _ h => absurd h (by decide)]
  rfl

/-- Other characters than backslashes and opening marks leave a value whole. -/
theorem whole_cons {c : Char} (hb : c ≠ '\\') (hq : c ≠ '"') (ha : c ≠ '<') (r : Text) :
    whole (c :: r) = whole r := by
  by_cases hpair : ∃ r', c = '{' ∧ r = '}' :: r'
  · obtain ⟨r', rfl, rfl⟩ := hpair
    exact (whole_placeholder_append r').trans (whole_closing r').symm
  · rw [whole.eq_5 _ _ (fun h => absurd h hb) (fun _ _ h => absurd h hb)
      fun r' hc hr => hpair ⟨r', hc, hr⟩]
    simp [hq, ha]

/-- **In a value every backslash escapes something, and nothing opens an argument.** -/
theorem whole_canonical (pieces : List Piece) : whole (canonical pieces) := by
  induction pieces with
  | nil => rfl
  | cons p pieces ih =>
    rw [canonical, List.flatMap_cons, ← canonical]
    cases p with
    | plain c h =>
      simp only [List.mem_cons, List.not_mem_nil, or_false, not_or] at h
      obtain ⟨hb, hq, ha, -⟩ := h
      exact (whole_cons hb hq ha _).trans ih
    | quoted chars | angled chars => exact (whole_placeholder_append _).trans ih
    | escaped c =>
      rw [Piece.segment, Segment.canonical]
      split
      case isTrue hc =>
        obtain rfl | rfl : c = '{' ∨ c = '}' := by simpa [isReserved] using hc
        all_goals exact (whole_cons (by decide) (by decide) (by decide) _).trans ih
      case isFalse hc => simp [whole, hc, ih]

/-! ## Typed placeholders -/

theorem extractKinds_placeholder_append (r : Text) :
    (extractKinds (placeholder ++ r)).2 = (extractKinds r).2 := by
  have hopen : leadingKind? ('{' :: '}' :: r) = none := by
    rw [leadingKind?_eq_none_iff]
    rintro kind ⟨rest, h⟩
    cases kind <;> cases h
  have hclose : leadingKind? ('}' :: r) = none := by
    rw [leadingKind?_eq_none_iff]
    rintro kind ⟨rest, h⟩
    cases kind <;> cases h
  rw [placeholder, List.cons_append, List.cons_append, List.nil_append, extractKinds_cons hopen,
    extractKinds_cons hclose]

theorem apart_placeholder_append (r : Text) : Apart (placeholder ++ r) := by
  intro c hc kind
  cases hc
  cases kind <;> decide

/-- **Placeholders for arguments make no typed placeholder** of the literal text around them. -/
theorem kinds_canonical {w : Text} {segs : List Segment}
    (h : ∀ run ∈ literalRuns (.literal w :: segs), (extractKinds run).2 = []) :
    (extractKinds (w ++ segs.flatMap Segment.canonical)).2 = [] := by
  induction segs generalizing w with
  | nil =>
    rw [List.flatMap_nil, List.append_nil]
    exact h w (by simp [literalRuns])
  | cons seg segs ih =>
    rw [List.flatMap_cons]
    cases seg with
    | literal t =>
      rw [literalRuns_literal_literal] at h
      rw [Segment.canonical, ← List.append_assoc]
      exact ih h
    | arg a =>
      rw [literalRuns_literal_arg, List.forall_mem_cons] at h
      have hrest := ih (w := []) (by rw [literalRuns_literal_nil]; exact h.2)
      rw [List.nil_append] at hrest
      rw [Segment.canonical, extractKinds_append (apart_placeholder_append _), h.1,
        extractKinds_placeholder_append, hrest]
      rfl

/-- No typed placeholder stands in the value of an accepted text. -/
theorem not_typedPlaceholder_canonical {pieces : List Piece} (h : ¬ Refused pieces) :
    ∀ name ∈ typedPlaceholders, ¬ name <:+: canonical pieces := by
  intro name hname
  obtain ⟨kind, rfl⟩ := mem_typedPlaceholders.1 hname
  have hruns : ∀ run ∈ literalRuns (.literal [] :: pieces.map Piece.segment),
      (extractKinds run).2 = [] := by
    rw [literalRuns_literal_nil]
    exact fun run hrun => kinds_eq_nil_iff.2 fun kind hin => h ⟨run, hrun, kind, hin⟩
  have hkinds := kinds_canonical hruns
  rw [List.nil_append, List.flatMap_map] at hkinds
  exact kinds_eq_nil_iff.1 hkinds kind

/-! ## Arguments -/

/-- A special argument has a colon. -/
theorem colon_mem_of_special {p : Piece} {a : RawArg} (h : p.segment.arg? = some a)
    (hk : a.kind = .special) : ':' ∈ a.text := by
  cases p with
  | plain | escaped => cases h
  | quoted chars =>
    cases h
    cases hk
  | angled chars =>
    cases h
    have hany : chars.any ArgChar.isColon = true := by
      by_contra hnone
      simp only [hnone, if_false] at hk
      cases hk
    obtain ⟨c, hc, hcolon⟩ := List.any_eq_true.1 hany
    cases c with
    | escaped c => cases hcolon
    | plain c hb hclose =>
      refine List.mem_map.2 ⟨_, hc, ?_⟩
      simpa [ArgChar.isColon, ArgChar.meaning] using hcolon

theorem readable_of_raw? {arg : Arg} {a : RawArg} (h : arg.raw? = some a) (hp : a.Plain)
    (hc : a.kind = .special → ':' ∈ a.text) : arg.Readable := by
  cases arg with
  | literal v => trivial
  | dynamic n =>
    cases h
    exact hp
  | special n _ | specialTable n _ =>
    cases h
    exact ⟨hp.1, hp.2, hc rfl⟩
  | table | block => cases h

/-! ## Steps -/

/-- An accepted text without dangling backslash is spelled by pieces, which give its value and its
arguments as they are. -/
theorem exists_pieces_of_scan {text : Text} {scanned : Scanned} (h : scan text = .ok scanned)
    (hd : dangles text.trim = false) :
    ∃ pieces, text.trim = spell pieces ∧ pieces ≠ [] ∧ ¬ Refused pieces ∧
      scanned = ⟨canonical pieces, pieces.filterMap fun p => p.segment.arg?⟩ := by
  have hreading := scan_eq_iff.1 h
  have htight := text.tight_trim
  generalize text.trim = t at hreading hd htight
  cases hreading with
  | accepted pieces hl hne href =>
    rw [dangles_spell] at hd
    obtain rfl := eq_nil_of_ends hl hd
    rw [List.append_nil] at hne htight
    refine ⟨pieces, List.append_nil _, ?_, href, ?_⟩
    · rintro rfl
      exact hne rfl
    · rw [← canonical, Text.trim_eq_self_iff.2 (tight_canonical htight)]

/-- A step with arguments of one line only is written as one line. -/
theorem step_eq_written (lay : Layout) {s : Step} (ha : ∀ arg ∈ s.args, arg.Readable)
    (hv : s.value.Tight) (hroom : s.args.length ≤ placeholderCount s.value) :
    lay.step s = ['*', ' '] ++ written s.value s.args ++ ['\n'] := by
  have hpieces : s.args.length < (splitPlaceholders s.value).length := by
    rw [length_splitPlaceholders]
    omega
  have hbelow : s.fragments.flatMap lay.belowLines = [] := by
    rw [Step.fragments, lay.flatMap_weave hpieces, List.flatMap_eq_nil_iff]
    exact fun arg harg => lay.belowLines_of_readable (ha arg harg)
  have htrim : (written s.value s.args).trimEnd = written s.value s.args :=
    Text.trimEnd_eq_self_iff.2 (Text.trim_eq_self_iff.1 (trim_written hv ha)).2
  rw [lay.step_eq, Layout.stepLines, hbelow, Step.fragments, flatMap_fragment, htrim,
    List.flatMap_singleton, asLine]

/-- **A scanned step is written as a line that scans as the same value and the same arguments**, if
no backslash dangles at the end of the text and no argument in angle brackets holds what ends or
escapes it, or makes it special. Between quotes any text is read back. -/
theorem scan_written_step {text : Text} {scanned : Scanned} (h : scan text = .ok scanned)
    (hd : dangles text.trim = false) (hp : ∀ a ∈ scanned.args, a.Plain) {s : Step}
    (hv : s.value = scanned.value) (ha : s.args.map Arg.raw? = scanned.args.map some)
    (lay : Layout) :
    (∃ line, lay.step s = ['*', ' '] ++ line ++ ['\n'] ∧ scan line = .ok scanned) ∧
      ∀ v rest : Text, readQuoted (escapeLiteral v ++ '"' :: rest) = some (v, rest) := by
  refine ⟨?_, readQuoted_escapeLiteral⟩
  obtain ⟨pieces, htext, hne, href, rfl⟩ := exists_pieces_of_scan h hd
  obtain ⟨lineNo, value, lineText, args, flag⟩ := s
  obtain rfl : value = canonical pieces := hv
  have hraw : args.filterMap Arg.raw? = pieces.filterMap fun p => p.segment.arg? := by
    have := congrArg (List.filterMap id) ha
    simpa only [List.filterMap_map, Function.id_comp, List.filterMap_some] using this
  have hread : ∀ arg ∈ args, arg.Readable := by
    intro arg harg
    have hraw? : arg.raw? ∈ (pieces.filterMap fun p => p.segment.arg?).map some :=
      ha ▸ List.mem_map_of_mem harg
    obtain ⟨a, hmem, hof⟩ := List.mem_map.1 hraw?
    obtain ⟨p, -, hpa⟩ := List.mem_filterMap.1 hmem
    exact readable_of_raw? hof.symm (hp a hmem) (colon_mem_of_special hpa)
  have htight : (canonical pieces).Tight := tight_canonical (htext ▸ text.tight_trim)
  have hlen : args.length ≤ placeholderCount (canonical pieces) := by
    have hcount := (placeholderCount_segments (pieces.map Piece.segment)).1
    rw [List.filterMap_map, List.flatMap_map] at hcount
    have := congrArg List.length ha
    simp only [List.length_map] at this
    exact this ▸ hcount
  have hnonempty : canonical pieces ≠ [] := by
    obtain ⟨p, ps, rfl⟩ := List.exists_cons_of_ne_nil hne
    exact List.append_ne_nil_of_left_ne_nil (canonical_ne_nil p) _
  refine ⟨_, step_eq_written lay hread htight hlen, ?_⟩
  rw [scan_written (whole_canonical pieces) htight hnonempty (not_typedPlaceholder_canonical href)
    hread hlen, hraw]

/-! ## A text with everything that has to be escaped -/

/-- Escaped braces that make a placeholder before the one of the argument, an escape that is kept,
and quotes, backslashes and line ends inside an argument. -/
def thornyText : Text :=
  "put \\\x7b\\\x7d \\\" in \"a\\\"\\\\\\n<\x7b\" with <size> of <file:a.txt>".toList

/-- What the text is scanned as. -/
def thornyScan : Scanned :=
  ⟨"put \x7b\x7d \\\" in \x7b\x7d with \x7b\x7d of \x7b\x7d".toList,
    [⟨.literal, "a\"\\\n<\x7b".toList⟩, ⟨.dynamic, "size".toList⟩,
      ⟨.special, "file:a.txt".toList⟩]⟩

/-- A step with this value and these arguments. -/
def thornyStep : Step :=
  ⟨1, thornyScan.value, [], [.literal "a\"\\\n<\x7b".toList, .dynamic "size".toList,
    .special "file:a.txt".toList "contents".toList], false⟩

theorem scan_written_step_thorny :
    (scan thornyText = .ok thornyScan ∧ dangles thornyText.trim = false ∧
      (∀ a ∈ thornyScan.args, a.Plain) ∧
      thornyStep.args.map Arg.raw? = thornyScan.args.map some) ∧
    (∃ line, Layout.step ⟨5⟩ thornyStep = ['*', ' '] ++ line ++ ['\n'] ∧
      scan line = .ok thornyScan) ∧
    ∀ v rest : Text, readQuoted (escapeLiteral v ++ '"' :: rest) = some (v, rest) := by
  have hsome : (scan thornyText).toOption = some thornyScan := by decide +kernel
  have hscan : scan thornyText = .ok thornyScan := by
    cases h : scan thornyText with
    | error fault => rw [h] at hsome; cases hsome
    | ok scanned => rw [h] at hsome; exact congrArg Except.ok (Option.some.inj hsome)
  have hd : dangles thornyText.trim = false := by decide +kernel
  have hp : ∀ a ∈ thornyScan.args, a.Plain := by decide +kernel
  have ha : thornyStep.args.map Arg.raw? = thornyScan.args.map some := by decide
  exact ⟨⟨hscan, hd, hp, ha⟩, scan_written_step hscan hd hp rfl ha ⟨5⟩⟩

end StepText

end ScenarioBook
