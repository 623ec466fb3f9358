/-
# Digits

Numbers from digits and back, most significant digit first.
-/

namespace FieldTree.Decimal

/-- The value of a digit of any base up to sixteen. -/
def digitValue (c : Char) : Nat :=
  if c.isDigit then c.toNat - '0'.toNat
  else if 'a' ≤ c ∧ c ≤ 'f' then c.toNat - 'a'.toNat + 10
  else if 'A' ≤ c ∧ c ≤ 'F' then c.toNat - 'A'.toNat + 10
  else 0

/-- The number that digits write in a base. -/
def ofDigits (base : Nat) (digits : List Char) : Nat :=
  digits.foldl (fun value c => value * base + digitValue c) 0

/-- Whether a character is a digit of base sixteen. -/
def isHexDigit (c : Char) : Bool :=
  c.isDigit || ('a' ≤ c && c ≤ 'f') || ('A' ≤ c && c ≤ 'F')

/-- The decimal digits of a number. -/
def digits (n : Nat) : List Char := Nat.toDigits 10 n

/-- A number in decimal digits, with zeros in front up to a width. -/
def padded (width n : Nat) : String :=
  String.ofList (List.replicate (width - (digits n).length) '0' ++ digits n)

/-! ## Small facts -/

example : ofDigits 10 ['0', '4', '2'] = 42 ∧ ofDigits 16 ['f', 'F'] = 255 := by decide

theorem ofDigits_append (base : Nat) (s : List Char) (c : Char) :
    ofDigits base (s ++ [c]) = ofDigits base s * base + digitValue c := by
  simp [ofDigits]

end FieldTree.Decimal
