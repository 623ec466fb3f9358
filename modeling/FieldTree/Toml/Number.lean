/-
# Numbers of a TOML document

Whole numbers of 64 bits in decimal, hexadecimal, octal and binary digits, and
double-precision numbers. Single underscores may stand between digits. A decimal number
starts with a zero only if that is its whole part.
-/
import FieldTree.Decimal.Binary64

namespace FieldTree.Toml

open Decimal (Binary64)

/-! ## Digits -/

/-- The digits of a row of digits with single underscores between them. -/
def ungroup (isDigit : Char → Bool) : List Char → Option (List Char)
  | [] => none
  | [c] => if isDigit c then some [c] else none
  | c :: '_' :: rest =>
    if isDigit c then (ungroup isDigit rest).map (c :: ·) else none
  | c :: d :: rest =>
    if isDigit c then (ungroup isDigit (d :: rest)).map (c :: ·) else none

/-- The digits of a decimal whole part. -/
def wholeDigits? (s : List Char) : Option (List Char) :=
  (ungroup Char.isDigit s).filter fun digits =>
    digits.length == 1 || digits.head? != some '0'

/-- Whether there is a minus sign at the start, and the text after the sign. -/
def sign : List Char → Bool × List Char
  | '-' :: rest => (true, rest)
  | '+' :: rest => (false, rest)
  | s => (false, s)

/-! ## Whole numbers -/

/-- The least whole number. -/
def leastInteger : Int := -0x8000000000000000

/-- The greatest whole number. -/
def greatestInteger : Int := 0x7fffffffffffffff

/-- A number, if it is not out of range. -/
def inRange? (n : Int) : Option Int :=
  if leastInteger ≤ n ∧ n ≤ greatestInteger then some n else none

/-- The number that digits of some base write. -/
def radixInteger? (base : Nat) (isDigit : Char → Bool) (s : List Char) : Option Int :=
  (ungroup isDigit s).bind fun digits => inRange? (Decimal.ofDigits base digits)

/-- The whole number that a word writes. -/
def integer? (word : List Char) : Option Int :=
  match word with
  | '0' :: 'x' :: rest => radixInteger? 16 Decimal.isHexDigit rest
  | '0' :: 'o' :: rest => radixInteger? 8 (fun c => '0' ≤ c && c ≤ '7') rest
  | '0' :: 'b' :: rest => radixInteger? 2 (fun c => c == '0' || c == '1') rest
  | word =>
    let (negative, rest) := sign word
    (wholeDigits? rest).bind fun digits =>
      let magnitude : Int := Decimal.ofDigits 10 digits
      inRange? (if negative then -magnitude else magnitude)

/-! ## Numbers with a fraction or an exponent -/

/-- Whether a character announces an exponent. -/
def startsExponent (c : Char) : Bool := c == 'e' || c == 'E'

/-- The exponent that a text announces; none at all counts as zero. -/
def exponent? : List Char → Option Int
  | [] => some 0
  | _ :: rest =>
    let (negative, rest) := sign rest
    (ungroup Char.isDigit rest).map fun digits =>
      let magnitude : Int := Decimal.ofDigits 10 digits
      if negative then -magnitude else magnitude

/-- The number of whole and fractional digits and an exponent. What is too great to be a
number is refused, but only with a plus sign. -/
def decimalFloat? (negative : Bool) (whole fraction : List Char) (exponent : Int) :
    Option Binary64 :=
  let value := Binary64.ofDecimal negative (Decimal.ofDigits 10 (whole ++ fraction))
    (exponent - fraction.length)
  if value = .infinite false then none else some value

/-- The number with a fraction, an exponent or both that a word writes. -/
def float? (word : List Char) : Option Binary64 :=
  let (negative, body) := sign word
  if body = ['i', 'n', 'f'] then some (.infinite negative)
  else if body = ['n', 'a', 'n'] then some .nan
  else
    let whole := body.takeWhile fun c => c != '.' && !startsExponent c
    let rest := body.dropWhile fun c => c != '.' && !startsExponent c
    match rest with
    | [] => none
    | '.' :: rest => do
      let digits ← wholeDigits? whole
      let fraction ← ungroup Char.isDigit (rest.takeWhile (!startsExponent ·))
      let exponent ← exponent? (rest.dropWhile (!startsExponent ·))
      decimalFloat? negative digits fraction exponent
    | rest => do
      let digits ← wholeDigits? whole
      let exponent ← exponent? rest
      decimalFloat? negative digits [] exponent

/-! ## Small facts -/

example : integer? ['-', '1', '_', '0'] = some (-10) ∧ integer? ['0', 'x', 'f', 'F'] = some 255
    ∧ integer? ['0', '7'] = none ∧ integer? ['1', '_', '_', '0'] = none := by decide

example : float? ['1', '.', '5', 'e', '+', '0', '1'] = some (Binary64.ofDecimal false 15 0) := by
  decide +kernel

end FieldTree.Toml
