import ScenarioBook.Text.Blank

/-!
# Table lines

A table line starts and ends with a bar, and bars divide its cells. A backslash makes the next
character part of the cell. When the closing bar is itself escaped, the text after the last free
bar is one more cell, in which only escaped bars are unescaped.
-/

set_option autoImplicit false

namespace ScenarioBook.Row

/-- The line starts and ends with a bar. -/
def isTableLine (line : Text) : Bool :=
  1 < line.length && line.startsWith ['|'] && line.endsWith ['|']

/-- Reads a cell up to the next free bar: its characters and what follows the bar. -/
def readCell : Text → Option (Text × Text)
  | [] => none
  | ['\\'] => none
  | '\\' :: c :: r => (readCell r).map fun (cell, rest) => (c :: cell, rest)
  | c :: r =>
    if c = '|' then some ([], r)
    else (readCell r).map fun (cell, rest) => (c :: cell, rest)

theorem length_lt_of_readCell {t cell rest : Text} (h : readCell t = some (cell, rest)) :
    rest.length < t.length := by
  fun_induction readCell t generalizing cell rest with
  | case1 => simp at h
  | case2 => simp at h
  | case3 c r ih =>
    simp only [Option.map_eq_some_iff, Prod.exists, Prod.mk.injEq] at h
    obtain ⟨a, b, hab, -, rfl⟩ := h
    have := ih hab
    simp only [List.length_cons]
    omega
  | case4 r => simp_all
  | case5 c r _ _ _ ih =>
    simp only [Option.map_eq_some_iff, Prod.exists, Prod.mk.injEq] at h
    obtain ⟨a, b, hab, -, rfl⟩ := h
    have := ih hab
    simp only [List.length_cons]
    omega

/-- The trimmed cells that end at a free bar, and the text after the last one. -/
def readCells (t : Text) : List Text × Text :=
  match h : readCell t with
  | none => ([], t)
  | some (cell, rest) =>
    have : rest.length < t.length := length_lt_of_readCell h
    let (cells, tail) := readCells rest
    (cell.trim :: cells, tail)
termination_by t.length

/-- Escaped bars replaced by bars, from left to right. -/
def unescapeBars : Text → Text
  | '\\' :: '|' :: r => '|' :: unescapeBars r
  | c :: r => c :: unescapeBars r
  | [] => []

/-- The cells of a table line. -/
def splitCells : Text → List Text
  | '|' :: r =>
    let (cells, tail) := readCells r
    let last := (unescapeBars tail).trim
    if last.isEmpty then cells else cells ++ [last]
  | _ => []

/-- What can be wrong with the cells of a header. -/
inductive HeaderFault where
  | blank
  | repeated (name : Text)
deriving DecidableEq, Repr

/-- The first text that occurred before. -/
def firstRepeated (seen : List Text) : List Text → Option Text
  | [] => none
  | t :: ts => if seen.contains t then some t else firstRepeated (t :: seen) ts

/-- Headers must not be blank and not repeat. -/
def headerFault? (cells : List Text) : Option HeaderFault :=
  if cells.any (·.isEmpty) then some .blank else (firstRepeated [] cells).map .repeated

/-- The row only underlines the header: every cell is made of dashes. -/
def isSeparator (cells : List Text) : Bool := !cells.isEmpty && cells.all (Text.allOf '-')

end ScenarioBook.Row
