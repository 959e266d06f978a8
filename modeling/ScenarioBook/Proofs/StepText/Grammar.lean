import ScenarioBook.Proofs.StepText.Typed

/-!
# The grammar of step texts

A step text is a sequence of pieces as an author writes them (`Piece`): plain characters, escapes,
arguments in quotes and in angle brackets. Every text is such a sequence with something at its end
that is no piece (`spelled`): nothing, a backslash that escapes nothing, or the place where
reading breaks off (`Breaks`), which is a brace without backslash or an argument that is never
closed. Reading gives the meaning of the pieces (`segments_spell`). So `Reading` says of each
trimmed text, without reading it from left to right, what comes of it, and scanning gives exactly
this (`scan_eq_iff`).
-/

set_option autoImplicit false

namespace ScenarioBook.StepText

/-! ## Pieces -/

/-- A character of an argument that `close` ends: as it is, or behind a backslash. -/
inductive ArgChar (close : Char) where
  | plain (c : Char) (hb : c ≠ '\\') (hc : c ≠ close)
  | escaped (c : Char)

namespace ArgChar

variable {close : Char}

def written : ArgChar close → Text
  | .plain c _ _ => [c]
  | .escaped c => ['\\', c]

/-- The character that the argument gets. -/
def meaning : ArgChar close → Char
  | .plain c _ _ => c
  | .escaped c => unescape c

def isColon : ArgChar close → Bool
  | .plain c _ _ => c == ':'
  | .escaped _ => false

end ArgChar

/-- A piece of a step text, as it is written. -/
inductive Piece where
  | plain (c : Char) (h : c ∉ ['\\', '"', '<', '{', '}'])
  | escaped (c : Char)
  | quoted (chars : List (ArgChar '"'))
  | angled (chars : List (ArgChar '>'))

def Piece.written : Piece → Text
  | .plain c _ => [c]
  | .escaped c => ['\\', c]
  | .quoted chars => '"' :: (chars.flatMap ArgChar.written ++ ['"'])
  | .angled chars => '<' :: (chars.flatMap ArgChar.written ++ ['>'])

/-- What the piece means. An escaped brace loses its backslash, any other escape in literal text
keeps it; an unescaped colon makes a parameter special. -/
def Piece.segment : Piece → Segment
  | .plain c _ => .literal [c]
  | .escaped c => .literal (if isReserved c then [c] else ['\\', c])
  | .quoted chars => .arg ⟨.literal, chars.map ArgChar.meaning⟩
  | .angled chars =>
    .arg ⟨if chars.any ArgChar.isColon then .special else .dynamic, chars.map ArgChar.meaning⟩

/-- The text of the pieces. -/
def spell (pieces : List Piece) : Text := pieces.flatMap Piece.written

/-- What may be left at the end of a text: nothing, or a backslash that escapes nothing. -/
def Ends (t : Text) : Prop := t = [] ∨ t = ['\\']

/-- Reading breaks off at the start of the text. -/
inductive Breaks : Text → Fault → Prop
  | reserved {c : Char} (hc : isReserved c) (rest : Text) : Breaks (c :: rest) (.reserved c)
  | openString (chars : List (ArgChar '"')) {last : Text} (hl : Ends last) :
      Breaks ('"' :: (chars.flatMap ArgChar.written ++ last)) .openString
  | openParameter (chars : List (ArgChar '>')) {last : Text} (hl : Ends last) :
      Breaks ('<' :: (chars.flatMap ArgChar.written ++ last)) .openParameter

/-- The literal text of the pieces, which arguments divide, contains one of the refused names. -/
def Refused (pieces : List Piece) : Prop :=
  ∃ run ∈ literalRuns (pieces.map Piece.segment), ∃ kind, typedPlaceholder kind <:+: run

/-- **What comes of a trimmed text.** -/
inductive Reading : Text → Except Fault Scanned → Prop
  | blank : Reading [] (.error .blank)
  | breaks (pieces : List Piece) {rest : Text} {fault : Fault} (h : Breaks rest fault) :
      Reading (spell pieces ++ rest) (.error fault)
  | refused (pieces : List Piece) {last : Text} (hl : Ends last) (hne : spell pieces ++ last ≠ [])
      (h : Refused pieces) : Reading (spell pieces ++ last) (.error .typedPlaceholder)
  | accepted (pieces : List Piece) {last : Text} (hl : Ends last) (hne : spell pieces ++ last ≠ [])
      (h : ¬ Refused pieces) :
      Reading (spell pieces ++ last)
        (.ok ⟨Text.trim (pieces.flatMap fun p => p.segment.canonical),
          pieces.filterMap fun p => p.segment.arg?⟩)

/-! ## Arguments -/

theorem readQuoted_cons {c : Char} (h : c ≠ '\\') (hq : c ≠ '"') (r : Text) :
    readQuoted (c :: r) = (readQuoted r).map fun (arg, rest) => (c :: arg, rest) := by
  rw [readQuoted.eq_def]
  split
  case h_1 h' => cases h'
  case h_2 h' => cases h'; exact absurd rfl h
  case h_3 h' => cases h'; exact absurd rfl h
  case h_4 h' => cases h'; rw [if_neg hq]

theorem readAngled_cons {c : Char} (h : c ≠ '\\') (hg : c ≠ '>') (r : Text) :
    readAngled (c :: r) =
      (readAngled r).map fun (special, arg, rest) => (c == ':' || special, c :: arg, rest) := by
  rw [readAngled.eq_def]
  split
  case h_1 h' => cases h'
  case h_2 h' => cases h'; exact absurd rfl h
  case h_3 h' => cases h'; exact absurd rfl h
  case h_4 h' => cases h'; rw [if_neg hg]

theorem readQuoted_written (chars : List (ArgChar '"')) (rest : Text) :
    readQuoted (chars.flatMap ArgChar.written ++ rest) =
      (readQuoted rest).map fun (arg, after) => (chars.map ArgChar.meaning ++ arg, after) := by
  induction chars with
  | nil => simp
  | cons c chars ih =>
    rw [List.flatMap_cons, List.append_assoc]
    cases c with
    | plain c hb hc =>
      rw [ArgChar.written, List.singleton_append, readQuoted_cons hb hc, ih, Option.map_map]
      rfl
    | escaped c =>
      rw [ArgChar.written, List.cons_append, List.singleton_append, readQuoted, ih, Option.map_map]
      rfl

theorem readAngled_written (chars : List (ArgChar '>')) (rest : Text) :
    readAngled (chars.flatMap ArgChar.written ++ rest) =
      (readAngled rest).map fun (special, arg, after) =>
        (chars.any ArgChar.isColon || special, chars.map ArgChar.meaning ++ arg, after) := by
  induction chars with
  | nil => simp
  | cons c chars ih =>
    rw [List.flatMap_cons, List.append_assoc]
    cases c with
    | plain c hb hc =>
      rw [ArgChar.written, List.singleton_append, readAngled_cons hb hc, ih, Option.map_map]
      simp [Function.comp_def, ArgChar.isColon, ArgChar.meaning, Bool.or_assoc]
    | escaped c =>
      rw [ArgChar.written, List.cons_append, List.singleton_append, readAngled, ih, Option.map_map]
      simp [Function.comp_def, ArgChar.isColon, ArgChar.meaning]

theorem readQuoted_of_ends (chars : List (ArgChar '"')) {last : Text} (hl : Ends last) :
    readQuoted (chars.flatMap ArgChar.written ++ last) = none := by
  rw [readQuoted_written]
  rcases hl with rfl | rfl <;> simp [readQuoted]

theorem readAngled_of_ends (chars : List (ArgChar '>')) {last : Text} (hl : Ends last) :
    readAngled (chars.flatMap ArgChar.written ++ last) = none := by
  rw [readAngled_written]
  rcases hl with rfl | rfl <;> simp [readAngled]

/-- The characters of an argument go on up to its end, or there is none. -/
theorem exists_argChars (close : Char) (t : Text) :
    ∃ (chars : List (ArgChar close)) (rest : Text), t = chars.flatMap ArgChar.written ++ rest ∧
      (Ends rest ∨ ∃ after, rest = close :: after) := by
  match t with
  | [] => exact ⟨[], [], rfl, .inl (.inl rfl)⟩
  | c :: r =>
    by_cases hb : c = '\\'
    · subst hb
      match r with
      | [] => exact ⟨[], _, rfl, .inl (.inr rfl)⟩
      | d :: r =>
        obtain ⟨chars, rest, rfl, hrest⟩ := exists_argChars close r
        exact ⟨.escaped d :: chars, rest, rfl, hrest⟩
    by_cases hc : c = close
    · exact ⟨[], _, rfl, .inr ⟨r, by rw [hc]⟩⟩
    · obtain ⟨chars, rest, rfl, hrest⟩ := exists_argChars close r
      exact ⟨.plain c hb hc :: chars, rest, rfl, hrest⟩

/-! ## Segments -/

theorem segments_quote {r arg rest : Text} (h : readQuoted r = some (arg, rest)) :
    segments ('"' :: r) = (segments rest).map (.arg ⟨.literal, arg⟩ :: ·) := by
  rw [segments.eq_4 _ _ (fun hc => absurd hc (by decide)) (fun _ _ hc => absurd hc (by decide)),
    if_pos rfl]
  split
  case h_1 hq => rw [h] at hq; cases hq
  case h_2 hq => rw [h] at hq; cases hq; rfl

theorem segments_angle {r arg rest : Text} {special : Bool}
    (h : readAngled r = some (special, arg, rest)) :
    segments ('<' :: r) =
      (segments rest).map (.arg ⟨if special then .special else .dynamic, arg⟩ :: ·) := by
  rw [segments.eq_4 _ _ (fun hc => absurd hc (by decide)) (fun _ _ hc => absurd hc (by decide)),
    if_neg (by decide), if_pos rfl]
  split
  case h_1 hq => rw [h] at hq; cases hq
  case h_2 hq => rw [h] at hq; cases hq; rfl

theorem segments_openString {r : Text} (h : readQuoted r = none) :
    segments ('"' :: r) = .error .openString := by
  rw [segments.eq_4 _ _ (fun hc => absurd hc (by decide)) (fun _ _ hc => absurd hc (by decide)),
    if_pos rfl]
  split
  case h_1 => rfl
  case h_2 hq => rw [h] at hq; cases hq

theorem segments_openParameter {r : Text} (h : readAngled r = none) :
    segments ('<' :: r) = .error .openParameter := by
  rw [segments.eq_4 _ _ (fun hc => absurd hc (by decide)) (fun _ _ hc => absurd hc (by decide)),
    if_neg (by decide), if_pos rfl]
  split
  case h_1 => rfl
  case h_2 hq => rw [h] at hq; cases hq

theorem segments_reserved {c : Char} (h : isReserved c) (r : Text) :
    segments (c :: r) = .error (.reserved c) := by
  obtain rfl | rfl : c = '{' ∨ c = '}' := by simpa [isReserved] using h
  all_goals
    rw [segments.eq_4 _ _ (fun h => absurd h (by decide)) fun _ _ h => absurd h (by decide)]
    rfl

theorem segments_escape {c : Char} (r : Text) :
    segments ('\\' :: c :: r) =
      (segments r).map (.literal (if isReserved c then [c] else ['\\', c]) :: ·) := by
  rw [segments]

theorem segments_cons {c : Char} (hb : c ≠ '\\') (hq : c ≠ '"') (ha : c ≠ '<')
    (hr : isReserved c = false) (r : Text) :
    segments (c :: r) = (segments r).map (.literal [c] :: ·) := by
  rw [segments.eq_4 _ _ (fun hc => absurd hc hb) (fun _ _ hc => absurd hc hb), if_neg hq,
    if_neg ha, if_neg (by simp [hr])]

/-- **Reading a piece gives its meaning.** -/
theorem segments_written (p : Piece) (rest : Text) :
    segments (p.written ++ rest) = (segments rest).map (p.segment :: ·) := by
  cases p with
  | plain c h =>
    simp only [List.mem_cons, List.not_mem_nil, or_false, not_or] at h
    obtain ⟨hb, hq, ha, ho, hc⟩ := h
    exact segments_cons hb hq ha (by simp [isReserved, ho, hc]) rest
  | escaped c => exact segments_escape rest
  | quoted chars =>
    have hread : readQuoted (chars.flatMap ArgChar.written ++ '"' :: rest) =
        some (chars.map ArgChar.meaning, rest) := by
      rw [readQuoted_written]
      simp [readQuoted]
    rw [Piece.written, List.cons_append, List.append_assoc, List.singleton_append]
    exact segments_quote hread
  | angled chars =>
    have hread : readAngled (chars.flatMap ArgChar.written ++ '>' :: rest) =
        some (chars.any ArgChar.isColon, chars.map ArgChar.meaning, rest) := by
      rw [readAngled_written]
      simp [readAngled]
    rw [Piece.written, List.cons_append, List.append_assoc, List.singleton_append]
    exact segments_angle hread

theorem segments_spell (pieces : List Piece) (rest : Text) :
    segments (spell pieces ++ rest) = (segments rest).map (pieces.map Piece.segment ++ ·) := by
  induction pieces with
  | nil => cases h : segments rest <;> simp [spell, h, Except.map]
  | cons p pieces ih =>
    rw [spell, List.flatMap_cons, List.append_assoc, segments_written, ← spell, ih]
    cases segments rest <;> rfl

theorem segments_of_ends {t : Text} (h : Ends t) : segments t = .ok [] := by
  rcases h with rfl | rfl <;> rw [segments]

theorem segments_of_breaks {t : Text} {fault : Fault} (h : Breaks t fault) :
    segments t = .error fault := by
  cases h with
  | reserved hc rest => exact segments_reserved hc rest
  | openString chars hl => exact segments_openString (readQuoted_of_ends chars hl)
  | openParameter chars hl => exact segments_openParameter (readAngled_of_ends chars hl)

/-- The text is a sequence of pieces, up to its end or to the place where reading breaks off. -/
def Spelled (t : Text) : Prop :=
  ∃ pieces rest, t = spell pieces ++ rest ∧ (Ends rest ∨ ∃ fault, Breaks rest fault)

theorem Spelled.of_ends {t : Text} (h : Ends t) : Spelled t := ⟨[], t, rfl, .inl h⟩

theorem Spelled.of_breaks {t : Text} {fault : Fault} (h : Breaks t fault) : Spelled t :=
  ⟨[], t, rfl, .inr ⟨fault, h⟩⟩

theorem Spelled.cons (p : Piece) {t : Text} (h : Spelled t) : Spelled (p.written ++ t) := by
  obtain ⟨pieces, rest, rfl, hrest⟩ := h
  exact ⟨p :: pieces, rest, by simp [spell], hrest⟩

/-- **Every text is spelled.** -/
theorem spelled (t : Text) : Spelled t := by
  match t with
  | [] => exact .of_ends (.inl rfl)
  | c :: r =>
    by_cases hb : c = '\\'
    · subst hb
      match r with
      | [] => exact .of_ends (.inr rfl)
      | d :: r => exact .cons (.escaped d) (spelled r)
    by_cases hq : c = '"'
    · subst hq
      obtain ⟨chars, rest, hr, hl | ⟨after, rfl⟩⟩ := exists_argChars '"' r
      · exact hr ▸ .of_breaks (.openString chars hl)
      · have hlt : after.length < r.length := by
          rw [hr, List.length_append, List.length_cons]
          omega
        have h := (spelled after).cons (.quoted chars)
        simpa [Piece.written, hr] using h
    by_cases ha : c = '<'
    · subst ha
      obtain ⟨chars, rest, hr, hl | ⟨after, rfl⟩⟩ := exists_argChars '>' r
      · exact hr ▸ .of_breaks (.openParameter chars hl)
      · have hlt : after.length < r.length := by
          rw [hr, List.length_append, List.length_cons]
          omega
        have h := (spelled after).cons (.angled chars)
        simpa [Piece.written, hr] using h
    by_cases hr : isReserved c
    · exact .of_breaks (.reserved hr r)
    · have hplain : c ∉ ['\\', '"', '<', '{', '}'] := by
        simpa [hb, hq, ha, isReserved] using hr
      exact .cons (.plain c hplain) (spelled r)
termination_by t.length
decreasing_by all_goals simp only [List.length_cons]; omega

/-! ## Scanning -/

theorem ne_nil_of_breaks {t : Text} {fault : Fault} (h : Breaks t fault) : t ≠ [] := by
  cases h <;> exact List.cons_ne_nil _ _

theorem hasTypedPlaceholder_iff_refused {pieces : List Piece} :
    hasTypedPlaceholder (pieces.map Piece.segment) ↔ Refused pieces := hasTypedPlaceholder_iff

/-- Scanning gives what comes of the trimmed text. -/
theorem scan_of_reading {text : Text} {r : Except Fault Scanned} (h : Reading text.trim r) :
    scan text = r := by
  generalize ht : text.trim = t at h
  have hscan : t ≠ [] → scan text = (segments t).bind assemble := by
    rintro hne
    subst ht
    exact scan_of_ne_nil hne
  have hspell : ∀ {pieces : List Piece} {last : Text}, Ends last →
      segments (spell pieces ++ last) = .ok (pieces.map Piece.segment) := by
    intro pieces last hl
    rw [segments_spell, segments_of_ends hl, Except.map, List.append_nil]
  cases h with
  | blank => rw [scan, ht]
  | breaks pieces hb =>
    rw [hscan (List.append_ne_nil_of_right_ne_nil _ (ne_nil_of_breaks hb)), segments_spell,
      segments_of_breaks hb]
    rfl
  | refused pieces hl hne href =>
    rw [hscan hne, hspell hl, Except.bind, assemble_eq,
      if_pos (hasTypedPlaceholder_iff_refused.2 href)]
  | accepted pieces hl hne href =>
    rw [hscan hne, hspell hl, Except.bind, assemble_eq,
      if_neg (mt hasTypedPlaceholder_iff_refused.1 href), List.flatMap_map, List.filterMap_map]
    rfl

/-- Something comes of every text. -/
theorem exists_reading (t : Text) : ∃ r, Reading t r := by
  obtain ⟨pieces, rest, rfl, hrest⟩ := spelled t
  by_cases hne : spell pieces ++ rest = []
  · rw [hne]
    exact ⟨_, .blank⟩
  rcases hrest with hl | ⟨fault, hb⟩
  · by_cases href : Refused pieces
    · exact ⟨_, .refused pieces hl hne href⟩
    · exact ⟨_, .accepted pieces hl hne href⟩
  · exact ⟨_, .breaks pieces hb⟩

/-- **Scanning accepts exactly the grammar**, gives what the pieces mean, and refuses every other
text for the first thing that breaks it. -/
theorem scan_eq_iff {text : Text} {r : Except Fault Scanned} :
    scan text = r ↔ Reading text.trim r := by
  refine ⟨fun h => ?_, scan_of_reading⟩
  obtain ⟨r', hr'⟩ := exists_reading text.trim
  rw [← h, scan_of_reading hr']
  exact hr'

/-- Literal braces around an argument neither hide its placeholder nor make another. -/
example : (scan "\\\x7bstatic\"x\"\\\x7d".toList).toOption =
    some ⟨"\x7bstatic\x7b\x7d\x7d".toList, [⟨.literal, ['x']⟩]⟩ := by decide +kernel

end ScenarioBook.StepText
