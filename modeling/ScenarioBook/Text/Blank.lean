import ScenarioBook.Text.Basic

/-!
# Blank characters and trimming

A character is blank if it has the Unicode property `White_Space`. Trimming removes blank
characters from the ends of a text. The main facts: the blank characters of ASCII are among the
blank ones (`isBlank_of_isWhitespace`), and a trimmed text is a part of the text it came from.
-/

set_option autoImplicit false

namespace ScenarioBook

namespace Text

/-- The characters with the property `White_Space`: tab to carriage return, space, next line,
no-break space, and the wider spaces and separators from U+1680 to U+3000. -/
def isBlank (c : Char) : Bool :=
  let n := c.toNat
  (9 ≤ n && n ≤ 13) || n == 0x20 || n == 0x85 || n == 0xA0 || n == 0x1680 ||
    (0x2000 ≤ n && n ≤ 0x200A) || n == 0x2028 || n == 0x2029 || n == 0x202F || n == 0x205F ||
    n == 0x3000

theorem isBlank_of_isWhitespace {c : Char} (h : c.isWhitespace) : isBlank c := by
  simp only [Char.isWhitespace, Bool.or_eq_true, decide_eq_true_eq] at h
  rcases h with ((rfl | rfl) | rfl) | rfl <;> decide

/-- The text without the blank characters it starts with. -/
def trimStart (t : Text) : Text := t.dropWhile isBlank

/-- The text without the blank characters it ends with. -/
def trimEnd (t : Text) : Text := (t.reverse.dropWhile isBlank).reverse

/-- The text without the blank characters at either end. -/
def trim (t : Text) : Text := trimEnd (trimStart t)

@[simp] theorem trimStart_nil : trimStart [] = [] := rfl

@[simp] theorem trimEnd_nil : trimEnd [] = [] := rfl

@[simp] theorem trim_nil : trim [] = [] := rfl

/-- What is left after trimming the end is the start of the text. -/
theorem trimEnd_isPrefix (t : Text) : trimEnd t <+: t := by
  have h := List.reverse_prefix.mpr (List.dropWhile_suffix isBlank (l := t.reverse))
  simpa [trimEnd] using h

theorem trimStart_isSuffix (t : Text) : trimStart t <:+ t := List.dropWhile_suffix _

/-- A trimmed text is a contiguous part of the text. -/
theorem trim_isInfix (t : Text) : trim t <:+: t :=
  (trimEnd_isPrefix _).isInfix.trans (trimStart_isSuffix t).isInfix

end Text

end ScenarioBook
