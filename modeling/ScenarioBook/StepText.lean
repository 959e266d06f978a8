import ScenarioBook.Step

/-!
# Step text

The text of a step, `log in as "alice" with <password>`, is read from left to right into segments:
pieces of literal text and arguments. A quoted argument is a literal, one in angle brackets names a
parameter, and one in angle brackets with a colon is special. Inside an argument a backslash takes
the next character as it is, with `\t` and `\n` for tab and newline. Outside, braces are reserved
and have to be written after a backslash; any other escape is kept with its backslash. A backslash
at the very end is dropped.

Reading takes two passes. The first leaves a typed placeholder, such as `{static}`, for each
argument. The second finds the typed placeholders again and leaves `{}` for each, which gives the
canonical value. If it finds more than there are arguments, one of them was written as text, and the
step is refused.
-/

set_option autoImplicit false

namespace ScenarioBook

/-- How an argument is written. -/
inductive ParamKind where
  /-- `"value"` -/
  | literal
  /-- `<name>` -/
  | dynamic
  /-- `<kind:value>` -/
  | special
deriving DecidableEq, Repr

/-- An argument as read from a step: its kind and its text after unescaping. -/
structure RawArg where
  kind : ParamKind
  text : Text
deriving DecidableEq, Repr

namespace StepText

/-- Why a step text is refused. -/
inductive Fault where
  | blank
  | openString
  | openParameter
  | reserved (c : Char)
  | typedPlaceholder
deriving DecidableEq, Repr

/-- A piece of a step text. -/
inductive Segment where
  | literal (text : Text)
  | arg (arg : RawArg)
deriving DecidableEq, Repr

/-- The result of reading a step text. -/
structure Scanned where
  value : Text
  args : List RawArg
deriving DecidableEq, Repr

/-- Braces are reserved for placeholders. -/
def isReserved (c : Char) : Bool := c == '{' || c == '}'

/-- The character that an escape inside an argument stands for. -/
def unescape (c : Char) : Char :=
  if c = 't' then '\t' else if c = 'n' then '\n' else c

/-! ## Arguments -/

/-- Reads a quoted argument after its opening quote: the text and what follows the closing quote. -/
def readQuoted : Text → Option (Text × Text)
  | [] => none
  | ['\\'] => none
  | '\\' :: c :: r => (readQuoted r).map fun (arg, rest) => (unescape c :: arg, rest)
  | c :: r =>
    if c = '"' then some ([], r)
    else (readQuoted r).map fun (arg, rest) => (c :: arg, rest)

/-- Reads an argument after its opening angle bracket: whether it has a colon, the text, and what
follows the closing bracket. -/
def readAngled : Text → Option (Bool × Text × Text)
  | [] => none
  | ['\\'] => none
  | '\\' :: c :: r =>
    (readAngled r).map fun (special, arg, rest) => (special, unescape c :: arg, rest)
  | c :: r =>
    if c = '>' then some (false, [], r)
    else (readAngled r).map fun (special, arg, rest) => (c == ':' || special, c :: arg, rest)

theorem length_lt_of_readQuoted {t arg rest : Text} (h : readQuoted t = some (arg, rest)) :
    rest.length < t.length := by
  fun_induction readQuoted t generalizing arg rest with
  | case1 => simp at h
  | case2 => simp at h
  | case3 c r ih =>
    simp only [Option.map_eq_some_iff, Prod.exists, Prod.mk.injEq] at h
    obtain ⟨a, b, hab, -, rfl⟩ := h
    have := ih hab
    simp only [List.length_cons]
    omega
  | case4 r => simp_all
  | case5 c r _ _ _ ih =>
    simp only [Option.map_eq_some_iff, Prod.exists, Prod.mk.injEq] at h
    obtain ⟨a, b, hab, -, rfl⟩ := h
    have := ih hab
    simp only [List.length_cons]
    omega

theorem length_lt_of_readAngled {t arg rest : Text} {special : Bool}
    (h : readAngled t = some (special, arg, rest)) : rest.length < t.length := by
  fun_induction readAngled t generalizing special arg rest with
  | case1 => simp at h
  | case2 => simp at h
  | case3 c r ih =>
    simp only [Option.map_eq_some_iff, Prod.exists, Prod.mk.injEq] at h
    obtain ⟨s, a, b, hab, -, -, rfl⟩ := h
    have := ih hab
    simp only [List.length_cons]
    omega
  | case4 r => simp_all
  | case5 c r _ _ _ ih =>
    simp only [Option.map_eq_some_iff, Prod.exists, Prod.mk.injEq] at h
    obtain ⟨s, a, b, hab, -, -, rfl⟩ := h
    have := ih hab
    simp only [List.length_cons]
    omega

/-! ## Segments -/

/-- The segments of a text, up to the first fault. -/
def segments (t : Text) : Except Fault (List Segment) :=
  match t with
  | [] => .ok []
  | ['\\'] => .ok []
  | '\\' :: c :: r =>
    (segments r).map (.literal (if isReserved c then [c] else ['\\', c]) :: ·)
  | c :: r =>
    if c = '"' then
      match h : readQuoted r with
      | none => .error .openString
      | some (arg, rest) =>
        have : rest.length < r.length := length_lt_of_readQuoted h
        (segments rest).map (.arg ⟨.literal, arg⟩ :: ·)
    else if c = '<' then
      match h : readAngled r with
      | none => .error .openParameter
      | some (special, arg, rest) =>
        have : rest.length < r.length := length_lt_of_readAngled h
        (segments rest).map (.arg ⟨if special then .special else .dynamic, arg⟩ :: ·)
    else if isReserved c then .error (.reserved c)
    else (segments r).map (.literal [c] :: ·)
termination_by t.length

/-- The argument of a segment. -/
def Segment.arg? : Segment → Option RawArg
  | .literal _ => none
  | .arg a => some a

/-! ## Typed placeholders -/

/-- What stands for an argument of the kind between the two passes. -/
def typedPlaceholder : ParamKind → Text
  | .literal => ['{', 's', 't', 'a', 't', 'i', 'c', '}']
  | .dynamic => ['{', 'd', 'y', 'n', 'a', 'm', 'i', 'c', '}']
  | .special => ['{', 's', 'p', 'e', 'c', 'i', 'a', 'l', '}']

/-- What the first pass writes for a segment. -/
def Segment.typed : Segment → Text
  | .literal t => t
  | .arg a => typedPlaceholder a.kind

/-- The kind whose typed placeholder starts the text, and what follows it. -/
def leadingKind? (t : Text) : Option (ParamKind × Text) :=
  [ParamKind.literal, .dynamic, .special].findSome? fun kind =>
    ((typedPlaceholder kind).isPrefixOf? t).map fun rest => (kind, rest)

theorem leadingKind?_eq_some {t rest : Text} {kind : ParamKind}
    (h : leadingKind? t = some (kind, rest)) :
    (typedPlaceholder kind).isPrefixOf? t = some rest := by
  obtain ⟨k, -, hk⟩ := List.exists_of_findSome?_eq_some h
  obtain ⟨r, hr, heq⟩ := Option.map_eq_some_iff.1 hk
  cases heq
  exact hr

theorem length_lt_of_leadingKind? {t rest : Text} {kind : ParamKind}
    (h : leadingKind? t = some (kind, rest)) : rest.length < t.length := by
  have hlen := Text.length_of_isPrefixOf? (leadingKind?_eq_some h)
  have hpos : 0 < (typedPlaceholder kind).length := by cases kind <;> decide
  omega

/-- The text with `{}` for each typed placeholder, and the kinds of these from left to right. -/
def extractKinds (t : Text) : Text × List ParamKind :=
  match t with
  | [] => ([], [])
  | c :: r =>
    match h : leadingKind? (c :: r) with
    | some (kind, rest) =>
      have : rest.length < (c :: r).length := length_lt_of_leadingKind? h
      let tail := extractKinds rest
      (placeholder ++ tail.1, kind :: tail.2)
    | none =>
      let tail := extractKinds r
      (c :: tail.1, tail.2)
termination_by t.length
decreasing_by all_goals simp only [List.length_cons] at *; omega

/-! ## Steps -/

/-- The second pass: the canonical value and the arguments, if each typed placeholder stands for an
argument. -/
def assemble (segs : List Segment) : Except Fault Scanned :=
  let texts := (segs.filterMap Segment.arg?).map (·.text)
  let (value, kinds) := extractKinds (Text.trim (segs.flatMap Segment.typed))
  if kinds.length = texts.length then .ok ⟨value, kinds.zipWith RawArg.mk texts⟩
  else .error .typedPlaceholder

/-- Reads the text of a step. -/
def scan (text : Text) : Except Fault Scanned :=
  match text.trim with
  | [] => .error .blank
  | t => (segments t).bind assemble

/-- The canonical value and the texts of the arguments. With an inline table below the step both
gain one element at the end. -/
def valueAndParams (text : Text) (withTable : Bool) : Except Fault (Text × List Text) := do
  let scanned ← scan text
  let params := scanned.args.map (·.text)
  if withTable then return (scanned.value ++ ' ' :: placeholder, params ++ ["table".toList])
  else return (scanned.value, params)

/-- Pieces of a value with the next argument, in angle brackets, between two of them. -/
def interleave : List Text → List Text → Text
  | [], _ => []
  | [piece], _ => piece
  | piece :: pieces, [] => piece ++ interleave pieces []
  | piece :: pieces, arg :: args => piece ++ '<' :: arg ++ '>' :: interleave pieces args

/-- The step text with every argument written as a parameter. -/
def parameterized (text : Text) : Except Fault Text := do
  let scanned ← scan text
  return interleave (splitPlaceholders scanned.value) (scanned.args.map (·.text))

end StepText

end ScenarioBook
