/-
# Double-precision numbers

A finite number is a sign, a whole mantissa and a power of two. Decimal numbers are
rounded to the nearest one, halves to the even mantissa.
-/
import FieldTree.Decimal.Digits

namespace FieldTree.Decimal

/-- A double-precision number; a finite one is `mantissa * 2 ^ exponent`. -/
inductive Binary64 where
  | nan
  | infinite (negative : Bool)
  | finite (negative : Bool) (mantissa : Nat) (exponent : Int)
  deriving DecidableEq, Repr

/-- A quotient rounded to the nearest whole number, halves to the even one. -/
def roundHalfEven (numerator denominator : Nat) : Nat :=
  let quotient := numerator / denominator
  let twice := 2 * (numerator % denominator)
  if twice < denominator ∨ (twice = denominator ∧ quotient % 2 = 0) then quotient
  else quotient + 1

/-- A power with a whole exponent, as a numerator and a denominator. -/
def powers (base : Nat) (exponent : Int) : Nat × Nat :=
  (base.pow exponent.toNat, base.pow (-exponent).toNat)

namespace Binary64

/-- The number of bits of a mantissa. -/
def precision : Nat := 53

/-- The least number with more bits than a mantissa. -/
def mantissaBound : Nat := Nat.pow 2 precision

/-- The least exponent of a finite number. -/
def leastExponent : Int := -1074

/-- The greatest exponent of a finite number. -/
def greatestExponent : Int := 971

/-- The exponent that gives a quotient a mantissa of full length, but not below the least. -/
def exponentOf (numerator denominator : Nat) : Int :=
  let guess : Int := (numerator.log2 : Int) - denominator.log2 - precision
  let (up, down) := powers 2 guess
  let exponent :=
    if numerator * down < denominator * up * mantissaBound then guess else guess + 1
  max exponent leastExponent

/-- The number nearest to a positive quotient. -/
def ofRatio (negative : Bool) (numerator denominator : Nat) : Binary64 :=
  if numerator = 0 then .finite negative 0 leastExponent
  else
    let exponent := exponentOf numerator denominator
    let (up, down) := powers 2 exponent
    let mantissa := roundHalfEven (numerator * down) (denominator * up)
    let (mantissa, exponent) :=
      if mantissa = mantissaBound then (mantissaBound / 2, exponent + 1)
      else (mantissa, exponent)
    if exponent ≤ greatestExponent then .finite negative mantissa exponent
    else .infinite negative

/-- The number nearest to `value * 10 ^ exponent`. What lies far outside the range of finite
numbers is settled by its number of digits. -/
def ofDecimal (negative : Bool) (value : Nat) (exponent : Int) : Binary64 :=
  let magnitude : Int := (digits value).length + exponent
  if value = 0 ∨ magnitude < -330 then .finite negative 0 leastExponent
  else if 310 < magnitude then .infinite negative
  else
    let (up, down) := powers 10 exponent
    ofRatio negative (value * up) down

/-- The nearest whole number, halves away from zero, held between zero and `greatest`. -/
def clampedRound (greatest : Nat) : Binary64 → Nat
  | nan => 0
  | infinite negative => if negative then 0 else greatest
  | finite negative mantissa exponent =>
    let (up, down) := powers 2 exponent
    if negative then 0 else min greatest ((2 * mantissa * up + down) / (2 * down))

/-! ## Small facts -/

example : ofDecimal false 1 0 = finite false (2 ^ 52) (-52) := by decide +kernel

/-- The first whole number that has no number of its own goes to its even neighbour. -/
example : ofDecimal false 9007199254740993 0 = finite false (2 ^ 52) 1 := by decide +kernel

end Binary64

end FieldTree.Decimal
