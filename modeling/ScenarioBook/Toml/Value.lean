import ScenarioBook.Toml.Moment
import ScenarioBook.Toml.Node

/-!
# Values of a configuration file

The values of a TOML file: strings, numbers, truth values, moments, arrays and inline tables.
Reading a value gives it with the text that follows, or nothing if the text is broken. Blank lines
and comments may stand anywhere between the marks of an array or an inline table, but not inside a
key.

Arrays and inline tables nest, and keys have parts, up to `nestingLimit`. The readers of their
elements take the reader of the next level as an argument, so a value is read by recursion on the
levels that are left.
-/

set_option autoImplicit false

namespace ScenarioBook.Toml

/-- How deep arrays and inline tables can nest, and how many parts a key can have. -/
def nestingLimit : Nat := 80

/-! ## Words -/

/-- The characters of words and numbers. -/
def isWordChar (c : Char) : Bool :=
  c.isAlphanum || c == '_' || c == '+' || c == '-' || c == '.' || c == ':'

/-- The word that the text starts with. The time of day after a date and one space belongs to it. -/
def wordOf (t : Text) : Text :=
  let word := t.takeWhile isWordChar
  match t.drop word.length with
  | ' ' :: c :: r =>
    if isDate word && c.isDigit then word ++ ' ' :: (c :: r).takeWhile isWordChar else word
  | _ => word

/-- The value that a word stands for. -/
def wordValue? (word : Text) : Option ConfigValue :=
  if word = "true".toList ∨ word = "false".toList then some .other
  else
    match number? word with
    | some v => some v
    | none => if isMoment word then some .moment else none

/-- A string or a word. -/
def scalar? (t : Text) : Option (ConfigValue × Text) :=
  match string? t with
  | some (s, rest) => some (.text s, rest)
  | none => (wordValue? (wordOf t)).map fun v => (v, t.drop (wordOf t).length)

/-! ## Keys -/

/-- The characters of a key without quotes. -/
def isBareChar (c : Char) : Bool := c.isAlphanum || c == '_' || c == '-'

def keyPart? (t : Text) : Option (Text × Text) :=
  match t with
  | [] => none
  | c :: r =>
    if c = '"' then basicString r
    else if c = literalQuote then literalString r
    else
      let bare := t.takeWhile isBareChar
      if bare.isEmpty then none else some (bare, t.drop bare.length)

/-- The parts of a key, divided by dots, up to a number of parts. -/
def keyWithin : Nat → Text → Option (List Text × Text)
  | 0, _ => none
  | n + 1, t => do
    let (part, rest) ← keyPart? (skipBlanks t)
    match skipBlanks rest with
    | '.' :: r => do
      let (parts, rest) ← keyWithin n r
      return (part :: parts, rest)
    | r => return ([part], r)

/-- The parts of a key. -/
def key? (t : Text) : Option (List Text × Text) := keyWithin nestingLimit t

/-! ## Arrays and inline tables -/

/-- The values of an array after its opening bracket or a comma, at most so many. -/
def items (read : Text → Option (ConfigValue × Text)) :
    Nat → Text → Option (List ConfigValue × Text)
  | 0, _ => none
  | n + 1, t =>
    match skipLines t with
    | ']' :: rest => some ([], rest)
    | t => do
      let (v, rest) ← read t
      match skipLines rest with
      | ',' :: r => do
        let (vs, rest) ← items read n r
        return (v :: vs, rest)
      | ']' :: rest => return ([v], rest)
      | _ => none

/-- The entries of an inline table after its opening brace or a comma, at most so many. -/
def inlineEntries (read : Text → Option (ConfigValue × Text)) :
    Nat → Entries → Text → Option (Entries × Text)
  | 0, _, _ => none
  | n + 1, es, t =>
    match skipLines t with
    | '}' :: rest => some (es, rest)
    | t => do
      let (key, rest) ← key? t
      match skipLines rest with
      | '=' :: r => do
        let (v, rest) ← read (skipLines r)
        let es ← insert v key es
        match skipLines rest with
        | ',' :: r => inlineEntries read n es r
        | '}' :: r => return (es, r)
        | _ => none
      | _ => none

/-- A value with at most so many levels of arrays and inline tables. -/
def valueWithin : Nat → Text → Option (ConfigValue × Text)
  | 0, t => scalar? t
  | n + 1, t =>
    match t with
    | '[' :: r => (items (valueWithin n) t.length r).map fun (vs, rest) => (.list vs, rest)
    | '{' :: r =>
      (inlineEntries (valueWithin n) t.length [] r).map fun (es, rest) =>
        (.table (toValues es), rest)
    | t => scalar? t

/-- A value and the text that follows it. -/
def value? (t : Text) : Option (ConfigValue × Text) := valueWithin nestingLimit t

end ScenarioBook.Toml
