/-!
# Text

A text is a list of characters. Everything this library reads or writes is a text: names, lines,
file contents. Offsets into a source are counted in bytes of its UTF-8 form, so the length of a
text for that purpose is `Text.utf8Size` and not `List.length`.

The operations here are the ones that the formats of the library share: cutting at a character and
into lines, taking a character off the end, looking for a part, and comparing while ignoring the
case of ASCII letters.
-/

set_option autoImplicit false

namespace ScenarioBook

/-- A text is a list of characters. -/
abbrev Text := List Char

namespace Text

/-! ## Between texts and strings -/

def ofString (s : String) : Text := s.toList

/-- The string with the same characters. -/
def toStr (t : Text) : String := String.ofList t

@[simp] theorem ofString_toStr (t : Text) : ofString t.toStr = t := by
  simp [ofString, toStr]

@[simp] theorem toStr_ofString (s : String) : toStr (ofString s) = s := by
  simp [ofString, toStr]

/-! ## Size in bytes -/

/-- The number of bytes of the UTF-8 form. -/
def utf8Size : Text → Nat
  | [] => 0
  | c :: r => c.utf8Size + utf8Size r

@[simp] theorem utf8Size_nil : utf8Size [] = 0 := rfl

@[simp] theorem utf8Size_cons (c : Char) (r : Text) :
    utf8Size (c :: r) = c.utf8Size + utf8Size r := rfl

@[simp] theorem utf8Size_append (s t : Text) : utf8Size (s ++ t) = utf8Size s + utf8Size t := by
  induction s with
  | nil => simp
  | cons c r ih => simp [ih, Nat.add_assoc]

/-! ## Cutting -/

/-- The text before the first occurrence of a character and the text after it. -/
def cutAt (sep : Char) : Text → Option (Text × Text)
  | [] => none
  | c :: r =>
    if c = sep then some ([], r)
    else (cutAt sep r).map fun (before, after) => (c :: before, after)

/-- Each line of the source with its terminating newline; the last line may have none. -/
def rawLines : Text → List Text
  | [] => []
  | c :: r =>
    if c = '\n' then [c] :: rawLines r
    else
      match rawLines r with
      | [] => [[c]]
      | line :: lines => (c :: line) :: lines

/-- Nothing is lost when a source is cut into lines. -/
theorem flatten_rawLines (t : Text) : (rawLines t).flatten = t := by
  induction t with
  | nil => rfl
  | cons c r ih =>
    rw [rawLines]
    split
    · simp [ih]
    · split <;> simp_all

/-! ## Ends and parts -/

theorem length_of_isPrefixOf? {t start rest : Text} (h : start.isPrefixOf? t = some rest) :
    t.length = start.length + rest.length := by
  induction start generalizing t with
  | nil =>
    cases h
    simp
  | cons d start ih =>
    cases t with
    | nil => cases h
    | cons c t =>
      change (if d == c then start.isPrefixOf? t else none) = some rest at h
      split at h
      · rw [List.length_cons, List.length_cons, ih h]
        omega
      · cases h

/-- The text without one final character `c`, if it has it. -/
def chop (c : Char) (t : Text) : Text := ([c].isSuffixOf? t).getD t

/-- The text starts with `start`. -/
def startsWith (t start : Text) : Bool := start.isPrefixOf t

/-- The text ends with `tail`. -/
def endsWith (t tail : Text) : Bool := tail.isSuffixOf t

/-- `part` occurs somewhere in the text. -/
def hasPart : (t part : Text) → Bool
  | [], part => part.isEmpty
  | c :: r, part => part.isPrefixOf (c :: r) || hasPart r part

/-- The text is not empty and all its characters are `c`. -/
def allOf (c : Char) (t : Text) : Bool := !t.isEmpty && t.all (· == c)

/-- The order of texts by code points. -/
def le (s t : Text) : Bool := (compare s t).isLE

/-! ## ASCII case -/

/-- Equality up to the case of ASCII letters. -/
def eqIgnoringCase (s t : Text) : Bool := s.map Char.toLower == t.map Char.toLower

/-- What follows `start`, if the text starts with it up to the case of ASCII letters. -/
def dropStartIgnoringCase? (t start : Text) : Option Text :=
  if eqIgnoringCase start (t.take start.length) then some (t.drop start.length) else none

end Text

end ScenarioBook
