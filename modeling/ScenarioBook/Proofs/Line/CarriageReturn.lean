import Mathlib.Order.Monotone.Defs
import Mathlib.Order.Basic
import ScenarioBook.Proofs.Line.Placed
import ScenarioBook.Proofs.Token.Stretched

/-!
# Carriage returns

A source can end its lines with a newline or with a carriage return and a newline (`Text.crlf`). Its
lines are the same in both forms but for their offsets (`Line.ofSource_crlf`): each byte moves by
one for every newline before it (`Text.crlfOffset`), so a line moves by one less than its number
(`Line.crlfOffset_start`), and its end moves with it (`Line.rigid_crlfOffset`).
-/

set_option autoImplicit false

namespace ScenarioBook

namespace Text

/-! ## Carriage returns and offsets -/

/-- The text with a carriage return before each newline. -/
def crlf : Text → Text
  | [] => []
  | c :: r => if c = '\n' then '\r' :: '\n' :: crlf r else c :: crlf r

/-- Where a byte of the text stands in `crlf`. -/
def crlfOffset : Text → Nat → Nat
  | [], n => n
  | c :: r, n => if n < c.utf8Size then n else utf8Size (crlf [c]) + crlfOffset r (n - c.utf8Size)

theorem crlf_append (s t : Text) : crlf (s ++ t) = crlf s ++ crlf t := by
  induction s with
  | nil => rfl
  | cons c s ih =>
    rw [List.cons_append, crlf, crlf, ih]
    split <;> rfl

theorem crlf_of_not_mem {t : Text} (h : '\n' ∉ t) : crlf t = t := by
  induction t with
  | nil => rfl
  | cons c t ih =>
    simp only [List.mem_cons, not_or] at h
    rw [crlf, if_neg (Ne.symm h.1), ih h.2]

/-- Each newline brings one byte more. -/
theorem utf8Size_crlf (t : Text) : utf8Size (crlf t) = utf8Size t + t.count '\n' := by
  induction t with
  | nil => rfl
  | cons c t ih =>
    rw [crlf]
    split
    case isTrue h =>
      have hsize : Char.utf8Size '\r' = 1 := rfl
      simp only [h, utf8Size_cons, hsize, ih, List.count_cons_self]
      omega
    case isFalse h =>
      rw [utf8Size_cons, utf8Size_cons, ih, List.count_cons_of_ne h]
      omega

@[simp] theorem crlfOffset_zero (t : Text) : crlfOffset t 0 = 0 := by
  cases t with
  | nil => rfl
  | cons c t => exact if_pos c.utf8Size_pos

/-- The characters in front move the offset by their own carriage returns. -/
theorem crlfOffset_append (s t : Text) (n : Nat) :
    crlfOffset (s ++ t) (utf8Size s + n) = utf8Size (crlf s) + crlfOffset t n := by
  induction s with
  | nil => simp [crlf]
  | cons c s ih =>
    have hnot : ¬ utf8Size (c :: s) + n < c.utf8Size := by simp only [utf8Size_cons]; omega
    have hrest : utf8Size (c :: s) + n - c.utf8Size = utf8Size s + n := by
      simp only [utf8Size_cons]; omega
    have hcons : crlf (c :: s) = crlf [c] ++ crlf s := crlf_append [c] s
    rw [List.cons_append, crlfOffset, if_neg hnot, hrest, ih, hcons, utf8Size_append]
    omega

theorem monotone_crlfOffset (t : Text) : Monotone (crlfOffset t) := by
  intro n m h
  induction t generalizing n m with
  | nil => exact h
  | cons c t ih =>
    have hsize := utf8Size_crlf [c]
    simp only [utf8Size_cons, utf8Size_nil] at hsize
    rw [crlfOffset, crlfOffset]
    split
    case isTrue hn => split <;> omega
    case isFalse hn =>
      have := @ih (n - c.utf8Size) (m - c.utf8Size) (by omega)
      rw [if_neg (by omega)]
      omega

/-- The end of some characters that the source starts with. -/
theorem crlfOffset_prefix (s t : Text) : crlfOffset (s ++ t) (utf8Size s) = utf8Size (crlf s) := by
  simpa using crlfOffset_append s t 0

end Text

namespace Line

section
variable {source : Text} {l : Line}

/-- **A line moves by one less than its number.** -/
theorem crlfOffset_start (h : l.StandsIn source) :
    source.crlfOffset l.start = l.start + (l.no - 1) := by
  obtain ⟨before, terminator, behind, hs⟩ := h
  have hwhole : source = before ++ (l.text ++ terminator ++ behind) := by
    simp only [hs.whole, List.append_assoc]
  rw [hwhole, hs.start, Text.crlfOffset_prefix, Text.utf8Size_crlf, hs.no, Nat.add_sub_cancel]

/-- **The end of a line moves with its start.** -/
theorem rigid_crlfOffset (h : l.StandsIn source) : l.Rigid source.crlfOffset := by
  obtain ⟨before, terminator, behind, hs⟩ := h
  have hwhole : source = before ++ (l.text ++ (terminator ++ behind)) := by
    simp only [hs.whole, List.append_assoc]
  have hstart : source.crlfOffset l.start = Text.utf8Size (Text.crlf before) := by
    rw [hwhole, hs.start, Text.crlfOffset_prefix]
  show source.crlfOffset (l.start + l.text.utf8Size) = _
  rw [hstart, hwhole, hs.start, Text.crlfOffset_append, Text.crlfOffset_prefix,
    Text.crlf_of_not_mem hs.single]

end

/-! ## The lines of both forms -/

/-- Cutting what is left of a source, in both forms. -/
theorem place_crlf {rest : Text} (no : Nat) (before : Text) (h : '\r' ∉ rest) :
    place no before.crlf.utf8Size rest.crlf.rawLines =
      (place no before.utf8Size rest.rawLines).map
        (stretched (Text.crlfOffset (before ++ rest))) := by
  induction rest using Text.lines_induction generalizing no before with
  | nil => rfl
  | last t hne hbody =>
    rw [Text.crlf_of_not_mem hbody, Text.rawLines_of_not_mem hbody hne]
    simp only [place, stretched, List.map_cons, List.map_nil, Text.crlfOffset_prefix]
  | line body r hbody ih =>
    simp only [List.mem_append, List.mem_cons, not_or] at h
    obtain ⟨hcr, -, hr⟩ := h
    have hcrlf : Text.crlf (body ++ '\n' :: r) = (body ++ ['\r']) ++ '\n' :: r.crlf := by
      rw [Text.crlf_append, Text.crlf_of_not_mem hbody, List.append_assoc]
      rfl
    have hline : '\n' ∉ body ++ ['\r'] := by simpa using hbody
    rw [hcrlf, Text.rawLines_append_newline hline, Text.rawLines_append_newline hbody, place, place,
      List.map_cons, dropTerminator_newline, dropTerminator_newline, Text.chop_concat,
      Text.chop_of_not_mem hcr]
    -- the lines behind the newline start where the source before them ends
    have hsize : Text.utf8Size (Text.crlf (before ++ (body ++ ['\n']))) =
        Text.utf8Size before.crlf + Text.utf8Size (body ++ ['\r'] ++ ['\n']) := by
      rw [Text.crlf_append, Text.crlf_append, Text.crlf_of_not_mem hbody, Text.utf8Size_append,
        List.append_assoc]
      rfl
    have hwhole : before ++ (body ++ '\n' :: r) = before ++ (body ++ ['\n']) ++ r := by simp
    rw [← hsize, ← Text.utf8Size_append, hwhole, ih (no + 1) _ hr, List.append_assoc]
    simp only [stretched, Text.crlfOffset_prefix]

/-- **The lines of a source are the same with carriage returns**, at other offsets. -/
theorem ofSource_crlf {source : Text} (h : '\r' ∉ source) :
    ofSource source.crlf = (ofSource source).map (stretched source.crlfOffset) :=
  place_crlf 1 [] h

end Line

/-- **A source without carriage returns is read the same with them**, at other offsets. -/
theorem tokenize_crlf {source : Text} (h : '\r' ∉ source) :
    tokenize source.crlf =
      stretchOutcome source.crlfOffset (List.map (Token.stretched source.crlfOffset))
        (tokenize source) :=
  tokenize_stretched source.monotone_crlfOffset
    (fun _ hl => Line.rigid_crlfOffset (Line.standsIn_of_mem hl)) (Line.ofSource_crlf h)

end ScenarioBook
