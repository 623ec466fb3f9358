/-
# The shortest decimal of a number

A double-precision number is written with the fewest digits that read back as it: a
multiple of the greatest power of ten of which some multiple lies among the reals that
round to the number. Of two such multiples the nearer is taken, and the greater when both
are equally near. Digits are written positionally, however many zeros that takes.
-/
import FieldTree.Decimal.Binary64

namespace FieldTree.Decimal

/-- A decimal number `digits * 10 ^ exponent`. -/
structure Scaled where
  digits : Nat
  exponent : Int
  deriving DecidableEq, Repr

namespace Scaled

/-- The same number without zeros at the end of its digits, as far as `fuel` goes. -/
def trimmed (fuel : Nat) (d : Scaled) : Scaled :=
  match fuel with
  | 0 => d
  | fuel + 1 =>
    if d.digits ≠ 0 ∧ d.digits % 10 = 0 then trimmed fuel ⟨d.digits / 10, d.exponent + 1⟩ else d

/-- The positional form: zeros are added on either side of the digits where needed. -/
def text (d : Scaled) : String :=
  let body := Decimal.digits d.digits
  if 0 ≤ d.exponent then String.ofList (body ++ List.replicate d.exponent.toNat '0')
  else
    let places := (-d.exponent).toNat
    let padded := List.replicate (places + 1 - body.length) '0' ++ body
    String.ofList (padded.take (padded.length - places) ++ '.' ::
      padded.drop (padded.length - places))

end Scaled

namespace Binary64

/-- The multiple of `10 ^ power` that stands for `mantissa * 2 ^ exponent`, if one of the two
next to it rounds to it. -/
def onGrid? (mantissa : Nat) (exponent power : Int) : Option Scaled :=
  let quarter := exponent - 2
  let (tenUp, tenDown) := powers 10 power
  let (twoUp, twoDown) := powers 2 quarter
  -- a multiple `c` of the power is `c * step`, the number is `value`, both in one small unit
  let step := tenUp * twoDown
  let unit := tenDown * twoUp
  let value := 4 * mantissa * unit
  let narrow := mantissa = mantissaBound / 2 ∧ leastExponent < exponent
  let low := (4 * mantissa - (if narrow then 1 else 2)) * unit
  let high := (4 * mantissa + 2) * unit
  let inside (c : Nat) : Bool :=
    if mantissa % 2 = 0 then low ≤ c * step && c * step ≤ high
    else low < c * step && c * step < high
  let below := value / step
  let nearerBelow : Bool := value - below * step < (below + 1) * step - value
  if inside below && (nearerBelow || !inside (below + 1)) then some ⟨below, power⟩
  else if inside (below + 1) then some ⟨below + 1, power⟩
  else none

/-- The shortest decimal of a positive finite number. -/
def shortest (mantissa : Nat) (exponent : Int) : Scaled :=
  let found := (List.range 660).findSome? fun (i : Nat) =>
    onGrid? mantissa exponent (310 - (i : Int))
  (found.getD ⟨0, 0⟩).trimmed 20

/-- The text of a number: its shortest decimal, without a point when it is whole. -/
def text : Binary64 → String
  | nan => "NaN"
  | infinite negative => if negative then "-inf" else "inf"
  | finite negative mantissa exponent =>
    (if negative then "-" else "") ++
      (if mantissa = 0 then "0" else (shortest mantissa exponent).text)

/-- The text of a number, in which a finite number always has a point. -/
def textWithPoint (x : Binary64) : String :=
  match x with
  | finite .. => if x.text.toList.contains '.' then x.text else x.text ++ ".0"
  | _ => x.text

/-! ## Small facts -/

example : (ofDecimal false 15 (-1)).text = "1.5" := by decide +kernel

example : (ofDecimal false 1 3).textWithPoint = "1000.0" := by decide +kernel

end Binary64

end FieldTree.Decimal
