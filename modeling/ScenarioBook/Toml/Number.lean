import ScenarioBook.Settings
import ScenarioBook.Toml.Quoted

/-!
# Numbers of a configuration file

A whole number is decimal with a sign, or hexadecimal, octal or binary without one. A fractional
number has a fraction, an exponent or both. Single underscores may stand between digits, and a
decimal part does not start with a superfluous zero.

Whole numbers that fit neither 128 bits with a sign nor 128 bits without one are too large, and so
are fractional numbers that a double rounds to infinity. `roundsToInfinity` decides that exactly
and never writes out a power of ten that is out of range.
-/

set_option autoImplicit false

namespace ScenarioBook.Toml

/-- Digits with single underscores between them. -/
def digits? (isDigit : Char → Bool) (t : Text) : Option Text :=
  let parts := t.splitOn '_'
  if parts.all fun p => !p.isEmpty && p.all isDigit then some parts.flatten else none

/-- The number that digits of a base spell. -/
def numberOf (base : Nat) (digits : Text) : Nat :=
  digits.foldl (fun n c => n * base + (hexDigit? c).getD 0) 0

/-- Digits that do not start with a superfluous zero. -/
def isDecimal (digits : Text) : Bool := digits.head? != some '0' || digits.length == 1

/-- The digits of a decimal number without sign. -/
def decimal? (t : Text) : Option Text := (digits? Char.isDigit t).filter isDecimal

/-- The text without a sign at its start. -/
def dropSign : Text → Text
  | '+' :: r => r
  | '-' :: r => r
  | t => t

/-- The text starts with a minus sign. -/
def isNegative (t : Text) : Bool := t.head? == some '-'

/-- A whole number. -/
def integer? (t : Text) : Option Int :=
  match t with
  | '0' :: 'x' :: r => (digits? (fun c => (hexDigit? c).isSome) r).map (numberOf 16 ·)
  | '0' :: 'o' :: r => (digits? (fun c => '0' ≤ c && c ≤ '7') r).map (numberOf 8 ·)
  | '0' :: 'b' :: r => (digits? (fun c => c == '0' || c == '1') r).map (numberOf 2 ·)
  | t =>
    (decimal? (dropSign t)).map fun digits =>
      if isNegative t then -(numberOf 10 digits : Int) else numberOf 10 digits

/-- The value of a whole number. -/
def integerValue (n : Int) : ConfigValue :=
  if -(Nat.pow 2 127 : Int) ≤ n ∧ n < (Nat.pow 2 128 : Int) then .number n else .tooLarge

/-- The exponent of a fractional number. -/
def exponent? (t : Text) : Option Int :=
  (digits? Char.isDigit (dropSign t)).map fun digits =>
    if isNegative t then -(numberOf 10 digits : Int) else numberOf 10 digits

/-- The digits of a fractional number and the power of ten they are multiplied by. -/
def fraction? (t : Text) : Option (Nat × Int) :=
  match Text.cutAt 'e' ((dropSign t).map Char.toLower) with
  | some (mantissa, power) => do
    let e ← exponent? power
    match mantissa.cutAt '.' with
    | some (whole, part) =>
      let w ← decimal? whole
      let p ← digits? Char.isDigit part
      return (numberOf 10 (w ++ p), e - p.length)
    | none =>
      let w ← decimal? mantissa
      return (numberOf 10 w, e)
  | none => do
    let (whole, part) ← (dropSign t).cutAt '.'
    let w ← decimal? whole
    let p ← digits? Char.isDigit part
    return (numberOf 10 (w ++ p), -p.length)

/-- The least number that a double rounds to infinity, half a step above the largest double. -/
def infinityBound : Nat := Nat.pow 2 1024 - Nat.pow 2 970

/-- A double rounds the product of `n` and the power `e` of ten to infinity. -/
def roundsToInfinity (n : Nat) (e : Int) : Bool :=
  let size := e + (Nat.toDigits 10 n).length
  if n = 0 ∨ size < 309 then false
  else if 310 < size then true
  else
    match e with
    | .ofNat k => infinityBound ≤ n * Nat.pow 10 k
    | .negSucc k => infinityBound * Nat.pow 10 (k + 1) ≤ n

/-- Infinity, or what is not a number. -/
def isSpecial (t : Text) : Bool := dropSign t == "inf".toList || dropSign t == "nan".toList

/-- The value that a number stands for. Fractional numbers are not told apart. -/
def number? (t : Text) : Option ConfigValue :=
  match integer? t with
  | some n => some (integerValue n)
  | none =>
    if isSpecial t then some .other
    else (fraction? t).map fun (n, e) => if roundsToInfinity n e then .tooLarge else .other

end ScenarioBook.Toml
