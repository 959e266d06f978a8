import ScenarioBook.Toml.Number

/-!
# Dates and times of a configuration file

A moment is a date, a time of day, or both with a letter T or one space between them; only both
together can have a distance from universal time. Seconds can be left out. A date is one of the
calendar, leap years included. No setting is a moment, so a moment is checked and not kept.
-/

set_option autoImplicit false

namespace ScenarioBook.Toml

/-- The number that so many digits spell. -/
def fixedDigits? (count : Nat) (t : Text) : Option Nat :=
  if t.length = count ∧ t.all Char.isDigit then some (numberOf 10 t) else none

/-- A number of two digits up to a bound. -/
def isPair (most : Nat) (t : Text) : Bool :=
  match fixedDigits? 2 t with
  | some n => n ≤ most
  | none => false

/-- The year has a 29th of February. -/
def isLeapYear (year : Nat) : Bool := year % 4 == 0 && (year % 100 != 0 || year % 400 == 0)

/-- The number of days of a month. -/
def daysOfMonth (year month : Nat) : Nat :=
  if month = 2 then if isLeapYear year then 29 else 28
  else if month = 4 ∨ month = 6 ∨ month = 9 ∨ month = 11 then 30
  else 31

/-- A date: year, month and day. -/
def isDate (t : Text) : Bool :=
  match t.splitOn '-' with
  | [y, m, d] =>
    match fixedDigits? 4 y, fixedDigits? 2 m, fixedDigits? 2 d with
    | some year, some month, some day =>
      1 ≤ month && month ≤ 12 && 1 ≤ day && day ≤ daysOfMonth year month
    | _, _, _ => false
  | _ => false

/-- Seconds, with a fraction or without. A minute can have a leap second. -/
def isSeconds (t : Text) : Bool :=
  match t.cutAt '.' with
  | some (whole, part) => isPair 60 whole && !part.isEmpty && part.all Char.isDigit
  | none => isPair 60 t

/-- A time of day. -/
def isTime (t : Text) : Bool :=
  match t.splitOn ':' with
  | [h, m] => isPair 23 h && isPair 59 m
  | [h, m, s] => isPair 23 h && isPair 59 m && isSeconds s
  | _ => false

/-- The distance from universal time, if there is one. -/
def isOffset (t : Text) : Bool :=
  match t with
  | [] => true
  | ['Z'] => true
  | ['z'] => true
  | c :: r =>
    (c == '+' || c == '-') && match r.splitOn ':' with
      | [h, m] => isPair 23 h && isPair 59 m
      | _ => false

/-- A date, a time, or both. -/
def isMoment (t : Text) : Bool :=
  isDate t || isTime t ||
    match t.drop 10 with
    | c :: r =>
      let time := r.takeWhile fun c => c.isDigit || c == ':' || c == '.'
      (c == 'T' || c == 't' || c == ' ') && isDate (t.take 10) && isTime time &&
        isOffset (r.drop time.length)
    | [] => false

end ScenarioBook.Toml
