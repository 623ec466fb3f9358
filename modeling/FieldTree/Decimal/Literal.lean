/-
# Numbers as words

What a bare word means as a number: a whole number with an optional sign, or a number with
an optional point and exponent. Words for the infinite and for no number at all may be in
any case.
-/
import FieldTree.Decimal.Binary64
import FieldTree.Text.Blank

namespace FieldTree.Decimal

/-- Whether there is a minus sign at the start, and the text after the sign. -/
def splitSign : List Char → Bool × List Char
  | '-' :: rest => (true, rest)
  | '+' :: rest => (false, rest)
  | s => (false, s)

/-- The number that a text of digits writes; an empty text writes none. -/
def digits? (s : List Char) : Option Nat :=
  if s ≠ [] ∧ s.all Char.isDigit then some (ofDigits 10 s) else none

/-- The whole number that a word writes. -/
def integer? (word : List Char) : Option Int :=
  let (negative, rest) := splitSign word
  (digits? rest).map fun (n : Nat) => if negative then -(n : Int) else n

/-- The exponent at the end of a number, from its letter on; without one it is zero. -/
def exponent? : List Char → Option Int
  | [] => some 0
  | c :: rest => if c = 'e' ∨ c = 'E' then integer? rest else none

/-- The number that a word writes. There must be a digit on one side of the point. -/
def number? (word : List Char) : Option Binary64 :=
  let (negative, rest) := splitSign word
  let small := rest.map Char.toLower
  if small = "inf".toList ∨ small = "infinity".toList then some (.infinite negative)
  else if small = "nan".toList then some .nan
  else
    let whole := rest.takeWhile Char.isDigit
    let (fraction, rest) := match rest.dropWhile Char.isDigit with
      | '.' :: rest => (rest.takeWhile Char.isDigit, rest.dropWhile Char.isDigit)
      | rest => ([], rest)
    if whole ++ fraction = [] then none
    else (exponent? rest).map fun exponent =>
      .ofDecimal negative (ofDigits 10 (whole ++ fraction)) (exponent - fraction.length)

/-! ## Small facts -/

example : integer? ['-', '0', '7'] = some (-7) ∧ integer? ['+'] = none := by decide

example : number? ".5".toList = number? "5e-1".toList ∧ number? ".".toList = none
    ∧ number? "-INFINITY".toList = some (.infinite true) := by decide +kernel

end FieldTree.Decimal
