import ScenarioBook.Text.Basic

/-!
# Quoted strings of a configuration file

The four forms of a string: with escapes or without, on one line or on several. Reading a string
gives it with the text that follows, or nothing if the text is broken. The blanks, comments and
line ends between values are here too, because a string of several lines can have them inside.

* `length_lt_of_escape?`: an escape is not empty, so the readers end.
* `length_lt_of_lineEnd?`: nor is a line end.
-/

set_option autoImplicit false

namespace ScenarioBook.Toml

/-! ## Blanks, comments and line ends -/

/-- The text without the spaces and tabs it starts with. -/
def skipBlanks (t : Text) : Text := t.dropWhile fun c => c == ' ' || c == '\t'

/-- What follows a line end, if the text starts with one. -/
def lineEnd? : Text → Option Text
  | '\n' :: r => some r
  | '\r' :: '\n' :: r => some r
  | _ => none

/-- A carriage return stands without the line feed that has to follow it. -/
def hasLoneReturn : Text → Bool
  | [] => false
  | '\r' :: '\n' :: r => hasLoneReturn r
  | '\r' :: _ => true
  | _ :: r => hasLoneReturn r

/-- The character may stand in a comment or a string: no control character but tab. -/
def isPrintable (c : Char) : Bool := c == '\t' || (0x20 ≤ c.toNat && c.toNat != 0x7F)

/-- What follows the comment that the text may start with. -/
def skipComment : Text → Text
  | '#' :: r => r.dropWhile isPrintable
  | t => t

/-- What follows the blanks and the comment at the end of a line, and the line end itself. Nothing
if something else stands there. -/
def endOfLine? (t : Text) : Option Text :=
  match skipComment (skipBlanks t) with
  | [] => some []
  | r => lineEnd? r

theorem length_skipComment_le (t : Text) : (skipComment t).length ≤ t.length := by
  unfold skipComment
  split
  · exact Nat.le_trans (List.dropWhile_sublist _).length_le (Nat.le_succ _)
  · exact Nat.le_refl _

theorem length_skipBlanks_le (t : Text) : (skipBlanks t).length ≤ t.length :=
  (List.dropWhile_sublist _).length_le

theorem length_lt_of_lineEnd? {t r : Text} (h : lineEnd? t = some r) : r.length < t.length := by
  unfold lineEnd? at h
  split at h
  · cases h
    exact Nat.lt_succ_self _
  · cases h
    exact Nat.lt_succ_of_lt (Nat.lt_succ_self _)
  · cases h

/-- The text without the blank lines, the comments and the blanks it starts with. -/
def skipLines (t : Text) : Text :=
  match h : lineEnd? (skipComment (skipBlanks t)) with
  | some r =>
    have : r.length < t.length :=
      Nat.lt_of_lt_of_le (length_lt_of_lineEnd? h)
        (Nat.le_trans (length_skipComment_le _) (length_skipBlanks_le t))
    skipLines r
  | none => skipComment (skipBlanks t)
termination_by t.length

/-! ## Escapes -/

/-- The value of a hexadecimal digit. -/
def hexDigit? (c : Char) : Option Nat :=
  if '0' ≤ c ∧ c ≤ '9' then some (c.toNat - '0'.toNat)
  else if 'a' ≤ c ∧ c ≤ 'f' then some (c.toNat - 'a'.toNat + 10)
  else if 'A' ≤ c ∧ c ≤ 'F' then some (c.toNat - 'A'.toNat + 10)
  else none

/-- The number that hexadecimal digits spell. -/
def hexNumber? (digits : Text) : Option Nat :=
  digits.foldlM (fun n c => (hexDigit? c).map (n * 16 + ·)) 0

/-- The character with a code point, unless it is a surrogate or too large. -/
def charOf? (n : Nat) : Option Char := if n.isValidChar then some (Char.ofNat n) else none

/-- The character of an escape by name. -/
def namedEscape? (c : Char) : Option Char :=
  if c = 'b' then some (Char.ofNat 0x08)
  else if c = 'e' then some (Char.ofNat 0x1B)
  else if c = 't' then some '\t'
  else if c = 'n' then some '\n'
  else if c = 'f' then some (Char.ofNat 0x0C)
  else if c = 'r' then some '\r'
  else if c = '"' then some '"'
  else if c = '\\' then some '\\'
  else none

/-- The character whose code point so many hexadecimal digits spell, and what follows them. -/
def hexEscape? (count : Nat) (t : Text) : Option (Char × Text) :=
  if t.length < count then none
  else ((hexNumber? (t.take count)).bind charOf?).map fun c => (c, t.drop count)

/-- The character of an escape after its backslash, and what follows it. -/
def escape? : Text → Option (Char × Text)
  | [] => none
  | c :: r =>
    if c = 'x' then hexEscape? 2 r
    else if c = 'u' then hexEscape? 4 r
    else if c = 'U' then hexEscape? 8 r
    else (namedEscape? c).map fun e => (e, r)

theorem length_le_of_hexEscape? {n : Nat} {t rest : Text} {c : Char}
    (h : hexEscape? n t = some (c, rest)) : rest.length ≤ t.length := by
  unfold hexEscape? at h
  split at h
  · cases h
  · obtain ⟨_, _, hc⟩ := Option.map_eq_some_iff.1 h
    cases hc
    exact (List.drop_sublist n t).length_le

theorem length_lt_of_escape? {t rest : Text} {c : Char} (h : escape? t = some (c, rest)) :
    rest.length < t.length := by
  cases t with
  | nil => cases h
  | cons d r =>
    rw [escape?] at h
    split at h
    · exact Nat.lt_succ_of_le (length_le_of_hexEscape? h)
    · split at h
      · exact Nat.lt_succ_of_le (length_le_of_hexEscape? h)
      · split at h
        · exact Nat.lt_succ_of_le (length_le_of_hexEscape? h)
        · obtain ⟨_, _, hc⟩ := Option.map_eq_some_iff.1 h
          cases hc
          exact Nat.lt_succ_self _

/-! ## Strings -/

/-- Puts a character in front of a string that was read. -/
def consText (c : Char) (r : Option (Text × Text)) : Option (Text × Text) :=
  r.map fun (s, rest) => (c :: s, rest)

/-- A string with escapes, after its opening quote. -/
def basicString (t : Text) : Option (Text × Text) :=
  match t with
  | [] => none
  | c :: r =>
    if c = '"' then some ([], r)
    else if c = '\\' then
      match h : escape? r with
      | some (e, rest) =>
        have : rest.length < r.length := length_lt_of_escape? h
        consText e (basicString rest)
      | none => none
    else if isPrintable c then consText c (basicString r)
    else none
termination_by t.length
decreasing_by all_goals (simp only [List.length_cons]; omega)

/-- The quote around a string without escapes. -/
def literalQuote : Char := Char.ofNat 0x27

/-- A string without escapes, after its opening quote. -/
def literalString : Text → Option (Text × Text)
  | [] => none
  | c :: r =>
    if c = literalQuote then some ([], r)
    else if isPrintable c then consText c (literalString r)
    else none

/-- The text up to the closing three quotes `q`, which up to two more of them can precede. -/
def upToTriple (q : Char) : Text → Option (Text × Text)
  | [] => none
  | c :: r =>
    if c = q ∧ r.take 2 = [q, q] then
      let extra := ((r.drop 2).takeWhile (· == q)).take 2
      some (extra, (r.drop 2).drop extra.length)
    else consText c (upToTriple q r)

/-- Three quotes stand at the start of the text. -/
def isTriple (q : Char) (t : Text) : Bool := t.take 3 == [q, q, q]

/-- The character may stand in a string of several lines. -/
def isPrintableLine (c : Char) : Bool := isPrintable c || c == '\n' || c == '\r'

/-- The text without the blanks and line ends it starts with. -/
def skipBlankLines (t : Text) : Text :=
  t.dropWhile fun c => c == ' ' || c == '\t' || c == '\n' || c == '\r'

theorem length_skipBlankLines_le (t : Text) : (skipBlankLines t).length ≤ t.length :=
  (List.dropWhile_sublist _).length_le

/-- A string of several lines with escapes, after its opening quotes. A backslash at the end of a
line takes away the line end and the blanks after it. -/
def multiLine (t : Text) : Option (Text × Text) :=
  match t with
  | [] => none
  | c :: r =>
    if isTriple '"' (c :: r) then upToTriple '"' (c :: r)
    else if c = '\\' then
      match h : escape? r with
      | some (e, rest) =>
        have : rest.length < r.length := length_lt_of_escape? h
        consText e (multiLine rest)
      | none =>
        have : (skipBlankLines r).length ≤ r.length := length_skipBlankLines_le r
        if (lineEnd? (skipBlanks r)).isSome then multiLine (skipBlankLines r) else none
    else if isPrintableLine c then consText c (multiLine r)
    else none
termination_by t.length
decreasing_by all_goals (simp only [List.length_cons]; omega)

/-- The text without a line end at its start. -/
def dropFirstLineEnd (t : Text) : Text := (lineEnd? t).getD t

/-- A string in any of its four forms. -/
def string? (t : Text) : Option (Text × Text) :=
  if isTriple '"' t then multiLine (dropFirstLineEnd (t.drop 3))
  else if isTriple literalQuote t then do
    let (s, rest) ← upToTriple literalQuote (dropFirstLineEnd (t.drop 3))
    if s.all isPrintableLine then some (s, rest) else none
  else
    match t with
    | [] => none
    | c :: r =>
      if c = '"' then basicString r
      else if c = literalQuote then literalString r
      else none

end ScenarioBook.Toml
