import ScenarioBook.Text.CaseTable

/-!
# Lower case

`Text.lower` is the full lower-case mapping of Unicode on a whole text: most characters are
mapped on their own, capital I with dot above becomes two characters, and capital sigma becomes
the final sigma when it ends a word. Two headings that differ only in case have the same lower
case.
-/

set_option autoImplicit false

namespace ScenarioBook.Text

/-- The first range with the code point, in ranges sorted by their first code points. -/
def rangeOf? (n : Nat) : List LowerRange → Option LowerRange
  | [] => none
  | r :: rs => if n < r.first then none else if r.covers n then some r else rangeOf? n rs

/-- Lower case of one character out of context. A code point on no range is its own lower case. -/
def lowerChar (c : Char) : Char :=
  if c.toNat < 0x80 then c.toLower
  else
    match rangeOf? c.toNat lowerRanges with
    | some r => Char.ofNat (r.image + (c.toNat - r.first))
    | none => c

def capitalSigma : Char := Char.ofNat 0x3A3

/-- Small sigma inside a word. -/
def smallSigma : Char := Char.ofNat 0x3C3

/-- Small sigma at the end of a word. -/
def finalSigma : Char := Char.ofNat 0x3C2

/-- The next character that is not case-ignorable has a case. -/
def casedNext (t : Text) : Bool :=
  match t.dropWhile fun c => inRanges caseIgnorableRanges c.toNat with
  | c :: _ => inRanges casedRanges c.toNat
  | [] => false

/-- The lower case of what follows `before`, which is given in reverse. A capital sigma ends a
word if a letter with case precedes it and none follows, case-ignorable characters aside. -/
def lowerAfter (before : Text) : Text → Text
  | [] => []
  | c :: r =>
    let here :=
      if c = capitalSigma then
        [if casedNext before && !casedNext r then finalSigma else smallSigma]
      else if c.toNat = 0x130 then ['i', Char.ofNat 0x307]
      else [lowerChar c]
    here ++ lowerAfter (c :: before) r

/-- The lower case of a text. -/
def lower (t : Text) : Text := lowerAfter [] t

end ScenarioBook.Text
