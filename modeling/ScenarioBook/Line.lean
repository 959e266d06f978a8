import ScenarioBook.Span
import ScenarioBook.Text.Blank

/-!
# Lines of a source

A source is cut at its newlines. A line ends before the newline, and before a carriage return in
front of it; it knows its number, counted from one, and the byte offset at which it starts.
-/

set_option autoImplicit false

namespace ScenarioBook

/-- A line without its terminator. -/
structure Line where
  no : Nat
  start : Nat
  text : Text
deriving DecidableEq, Repr

namespace Line

/-- The bytes of the line, without its terminator. -/
def span (l : Line) : Span := ⟨l.start, l.start + l.text.utf8Size⟩

/-- The line without one newline and then one carriage return at its end. -/
def dropTerminator (raw : Text) : Text := Text.chop '\r' (Text.chop '\n' raw)

/-- Numbers lines from `no` and places the first one at the offset `start`. -/
def place (no start : Nat) : List Text → List Line
  | [] => []
  | raw :: raws => ⟨no, start, dropTerminator raw⟩ :: place (no + 1) (start + raw.utf8Size) raws

/-- The lines of a source. -/
def ofSource (source : Text) : List Line := place 1 0 source.rawLines

/-- The mark that opens and closes a block of lines. -/
def fence : Text := ['"', '"', '"']

/-- The line holds nothing but a fence. -/
def isFence (l : Line) : Bool := l.text.trim == fence

/-- The lines of a block up to the closing fence and the lines after it, if the block is closed. -/
def takeBlock : List Line → Option (List Text × List Line)
  | [] => none
  | l :: ls =>
    if l.isFence then some ([], ls)
    else (takeBlock ls).map fun (block, rest) => (l.text :: block, rest)

theorem length_lt_of_takeBlock {ls rest : List Line} {block : List Text}
    (h : takeBlock ls = some (block, rest)) : rest.length < ls.length := by
  fun_induction takeBlock ls generalizing block rest with
  | case1 => simp at h
  | case2 l ls => simp_all
  | case3 l ls _ ih =>
    simp only [Option.map_eq_some_iff, Prod.exists, Prod.mk.injEq] at h
    obtain ⟨b, r, hb, -, rfl⟩ := h
    have := ih hb
    simp only [List.length_cons]
    omega

end Line

end ScenarioBook
