/-
# Dates and times of a TOML document

A date, a time of day, or both with or without a distance from universal time. They are
kept as the text in which they are shown: `T` between date and time, a capital `Z`, and at
most nine digits of a second without zeros at the end.
-/
import FieldTree.Decimal.Digits

namespace FieldTree.Toml

/-- A number of a fixed count of digits at the start of a text, and the text after it. -/
def fixedDigits? (width : Nat) (s : List Char) : Option (Nat × List Char) :=
  let written := s.take width
  if written.length = width ∧ written.all Char.isDigit then
    some (Decimal.ofDigits 10 written, s.drop width)
  else none

/-- The text after one expected character. -/
def after? (c : Char) : List Char → Option (List Char)
  | d :: rest => if d = c then some rest else none
  | [] => none

/-- Whether a year has a leap day. -/
def isLeapYear (year : Nat) : Bool :=
  year % 4 == 0 && (year % 100 != 0 || year % 400 == 0)

/-- The number of days of a month. -/
def daysOfMonth (year month : Nat) : Nat :=
  if month = 2 then if isLeapYear year then 29 else 28
  else if month ∈ [4, 6, 9, 11] then 30
  else 31

/-- A date at the start of a text, as it is shown, and the text after it. -/
def date? (s : List Char) : Option (String × List Char) := do
  let (year, s) ← fixedDigits? 4 s
  let s ← after? '-' s
  let (month, s) ← fixedDigits? 2 s
  let s ← after? '-' s
  let (day, s) ← fixedDigits? 2 s
  if 1 ≤ month ∧ month ≤ 12 ∧ 1 ≤ day ∧ day ≤ daysOfMonth year month then
    some (Decimal.padded 4 year ++ "-" ++ Decimal.padded 2 month ++ "-" ++ Decimal.padded 2 day, s)
  else none

/-- The digits of a part of a second as they are shown: nine at most, without zeros at the
end. -/
def shownFraction (digits : List Char) : String :=
  match ((digits.take 9).reverse.dropWhile (· == '0')).reverse with
  | [] => ""
  | shown => String.ofList ('.' :: shown)

/-- A time of day at the start of a text, as it is shown, and the text after it. -/
def time? (s : List Char) : Option (String × List Char) := do
  let (hour, s) ← fixedDigits? 2 s
  let s ← after? ':' s
  let (minute, s) ← fixedDigits? 2 s
  let s ← after? ':' s
  let (second, s) ← fixedDigits? 2 s
  if hour ≤ 23 ∧ minute ≤ 59 ∧ second ≤ 60 then
    let shown := Decimal.padded 2 hour ++ ":" ++ Decimal.padded 2 minute ++ ":"
      ++ Decimal.padded 2 second
    match s with
    | '.' :: rest =>
      let digits := rest.takeWhile Char.isDigit
      if digits = [] then some (shown, s)
      else some (shown ++ shownFraction digits, rest.dropWhile Char.isDigit)
    | s => some (shown, s)
  else none

/-- A distance from universal time that a whole text writes, as it is shown. -/
def offset? (s : List Char) : Option String :=
  match s with
  | ['Z'] | ['z'] => some "Z"
  | mark :: rest => do
    let (hour, rest) ← fixedDigits? 2 rest
    let rest ← after? ':' rest
    let (minute, rest) ← fixedDigits? 2 rest
    if (mark = '+' ∨ mark = '-') ∧ hour ≤ 23 ∧ minute ≤ 59 ∧ rest = [] then
      let shown := if mark = '-' ∧ 0 < hour + minute then "-" else "+"
      some (shown ++ Decimal.padded 2 hour ++ ":" ++ Decimal.padded 2 minute)
    else none
  | [] => none

/-- A time of day that a whole text writes, with or without a distance from universal time,
as it is shown. -/
def timeWithOffset? (s : List Char) : Option String := do
  let (time, rest) ← time? s
  match rest with
  | [] => some time
  | rest => (offset? rest).map (time ++ ·)

/-- The date, time or both that a word writes, as it is shown. -/
def dateTime? (word : List Char) : Option String :=
  match date? word with
  | some (date, []) => some date
  | some (date, mark :: rest) =>
    if mark = 'T' ∨ mark = 't' then (timeWithOffset? rest).map (date ++ "T" ++ ·) else none
  | none =>
    match time? word with
    | some (time, []) => some time
    | _ => none

/-! ## Small facts -/

example : dateTime? "2024-02-29t23:59:60.1200z".toList = some "2024-02-29T23:59:60.12Z" := by
  decide +kernel

example : dateTime? "2023-02-29".toList = none := by decide +kernel

end FieldTree.Toml
