/-
# Rounding to double precision

A quotient is scaled by the power of two that gives it a mantissa of full length, and rounded to
the nearest whole number.  What matters of it is its value alone: between the halfway points around
a number of the format all quotients are rounded to that number, and the halfway points are where
the mantissa is even.

* `Decimal.powers_fst_eq` : a power of a whole exponent as a fraction;
* `Decimal.nearest_roundHalfEven` : rounding to the nearest whole number;
* `Binary64.hasExponent_exponentOf` : the exponent that a quotient gets;
* `Binary64.ofRatio_eq_of_rounds` : which quotients are rounded to a number of the format;
* `Binary64.canonical_number?` : what a word writes is a number of the format.
-/
import FieldTree.Decimal.Literal
import Mathlib.Algebra.Order.Field.Basic
import Mathlib.Algebra.Order.Field.Power
import Mathlib.Tactic.FieldSimp
import Mathlib.Tactic.Linarith
import Mathlib.Tactic.NormNum
import Mathlib.Tactic.Positivity
import Mathlib.Tactic.Ring

namespace FieldTree.Decimal

/-! ## Powers as fractions -/

section Powers

variable {base : ℕ} (hbase : 0 < base) (e : ℤ)
include hbase

theorem powers_fst_pos : 0 < (powers base e).1 := Nat.pow_pos hbase

theorem powers_snd_pos : 0 < (powers base e).2 := Nat.pow_pos hbase

/-- The numerator of a power is the power times its denominator. -/
theorem powers_fst_eq : ((powers base e).1 : ℚ) = (base : ℚ) ^ e * (powers base e).2 := by
  have hne : (base : ℚ) ≠ 0 := Nat.cast_ne_zero.2 hbase.ne'
  have hexponent : (e.toNat : ℤ) = e + (-e).toNat := by omega
  show ((base ^ e.toNat : ℕ) : ℚ) = (base : ℚ) ^ e * ((base ^ (-e).toNat : ℕ) : ℚ)
  rw [Nat.cast_pow, Nat.cast_pow, ← zpow_natCast, ← zpow_natCast, hexponent, zpow_add₀ hne]

end Powers

/-! ## The nearest whole number -/

/-- A whole number is the nearest to a quotient, an even one if it is only one of two. -/
def Nearest (q : ℚ) (n : ℕ) : Prop :=
  (n - 1 / 2 < q ∧ q < n + 1 / 2) ∨ (n % 2 = 0 ∧ n - 1 / 2 ≤ q ∧ q ≤ n + 1 / 2)

namespace Nearest

variable {q : ℚ} {m n : ℕ}

theorem le_add (h : Nearest q n) : q ≤ n + 1 / 2 := by
  rcases h with ⟨-, h⟩ | ⟨-, -, h⟩
  · exact h.le
  · exact h

theorem sub_le (h : Nearest q n) : n - 1 / 2 ≤ q := by
  rcases h with ⟨h, -⟩ | ⟨-, h, -⟩
  · exact h.le
  · exact h

theorem le_of_lt (h : Nearest q n) (hlt : q < m) : n ≤ m := by
  have hsub := h.sub_le
  have hcast : (n : ℚ) < m + 1 := by linarith
  exact Nat.lt_succ_iff.1 (by exact_mod_cast hcast)

theorem ge_of_le (h : Nearest q n) (hle : (m : ℚ) ≤ q) : m ≤ n := by
  have hadd := h.le_add
  have hcast : (m : ℚ) < n + 1 := by linarith
  exact Nat.lt_succ_iff.1 (by exact_mod_cast hcast)

theorem le_of_nearest (hm : Nearest q m) (hn : Nearest q n) : m ≤ n := by
  by_contra hlt
  have hnext : n + 1 ≤ m := by omega
  have hcast : (n : ℚ) + 1 ≤ m := by exact_mod_cast hnext
  have hsub := hm.sub_le
  have hadd := hn.le_add
  -- The quotient lies halfway between the two, so both of them are even.
  have hhalf : q = n + 1 / 2 := by linarith
  have hsucc : m = n + 1 := by
    have : (m : ℚ) = (n + 1 : ℕ) := by push_cast; linarith
    exact_mod_cast this
  rcases hm with ⟨hm, -⟩ | ⟨hm, -⟩
  · linarith
  · rcases hn with ⟨-, hn⟩ | ⟨hn, -⟩
    · linarith
    · omega

/-- Only one whole number is the nearest. -/
theorem unique (hm : Nearest q m) (hn : Nearest q n) : m = n :=
  Nat.le_antisymm (hm.le_of_nearest hn) (hn.le_of_nearest hm)

end Nearest

/-- **Rounding gives the nearest whole number**, and of two the even one. -/
theorem nearest_roundHalfEven (numerator : ℕ) {denominator : ℕ} (h : 0 < denominator) :
    Nearest (numerator / denominator) (roundHalfEven numerator denominator) := by
  have hpos : (0 : ℚ) < denominator := Nat.cast_pos.2 h
  have hsplit : denominator * (numerator / denominator) + numerator % denominator = numerator :=
    Nat.div_add_mod numerator denominator
  have hrest := Nat.mod_lt numerator h
  generalize hquotient : numerator / denominator = quotient at hsplit
  generalize hremainder : numerator % denominator = rest at hsplit hrest
  have hvalue : (numerator : ℚ) / denominator = quotient + rest / denominator := by
    rw [← hsplit]
    push_cast
    field_simp
  have hzero : (0 : ℚ) ≤ rest / denominator := by positivity
  have hone : (rest : ℚ) / denominator < 1 := (div_lt_one hpos).2 (by exact_mod_cast hrest)
  have hlt : (rest : ℚ) / denominator < 1 / 2 ↔ 2 * rest < denominator := by
    rw [div_lt_div_iff₀ hpos two_pos, one_mul, mul_comm]
    exact_mod_cast Iff.rfl
  have hle : (rest : ℚ) / denominator ≤ 1 / 2 ↔ 2 * rest ≤ denominator := by
    rw [div_le_div_iff₀ hpos two_pos, one_mul, mul_comm]
    exact_mod_cast Iff.rfl
  rw [roundHalfEven, hquotient, hremainder, hvalue]
  split
  · next hdown =>
    rcases hdown with hdown | ⟨htie, heven⟩
    · exact .inl ⟨by linarith, by linarith [hlt.2 hdown]⟩
    · exact .inr ⟨heven, by linarith, by linarith [hle.2 htie.le]⟩
  · next hup =>
    rw [not_or, not_lt] at hup
    obtain ⟨hge, htie⟩ := hup
    have hhalf : (1 : ℚ) / 2 ≤ rest / denominator := not_lt.1 fun hcontra => by
      have := hlt.1 hcontra
      omega
    by_cases heq : 2 * rest = denominator
    · have heven : (quotient + 1) % 2 = 0 := by
        have hodd : ¬ quotient % 2 = 0 := fun heven => htie ⟨heq, heven⟩
        omega
      refine .inr ⟨heven, ?_, ?_⟩
      · push_cast
        linarith
      · push_cast
        linarith
    · have hstrict : (1 : ℚ) / 2 < rest / denominator := not_le.1 fun hcontra => by
        have := hle.1 hcontra
        omega
      refine .inl ⟨?_, ?_⟩
      · push_cast
        linarith
      · push_cast
        linarith

namespace Binary64

/-! ## Numbers of the format -/

/-- A number of the format: its mantissa has full length, unless its exponent is the least. -/
def Canonical : Binary64 → Prop
  | nan | infinite _ => True
  | finite _ mantissa exponent =>
    mantissa < mantissaBound ∧ leastExponent ≤ exponent ∧ exponent ≤ greatestExponent ∧
      (mantissaBound / 2 ≤ mantissa ∨ exponent = leastExponent)

theorem cast_mantissaBound : (mantissaBound : ℚ) = 2 ^ 53 := by
  rw [show mantissaBound = 2 ^ 53 from rfl]
  norm_num

theorem cast_mantissaBound_half : ((mantissaBound / 2 : ℕ) : ℚ) = 2 ^ 52 := by
  rw [show mantissaBound / 2 = 2 ^ 52 from rfl]
  norm_num

variable {q : ℚ} {m : ℕ} {e e' : ℤ} {numerator denominator : ℕ} {negative : Bool}

/-- A quotient has the exponent with which its mantissa has full length, or else the least. -/
structure HasExponent (q : ℚ) (e : ℤ) : Prop where
  lt : q < 2 ^ 53 * 2 ^ e
  least_le : leastExponent ≤ e
  le : e ≠ leastExponent → 2 ^ 52 * 2 ^ e ≤ q

namespace HasExponent

theorem le_of_hasExponent (h : HasExponent q e) (h' : HasExponent q e') : e ≤ e' := by
  by_contra hlt
  have hleast := h'.least_le
  have hpow : (2 : ℚ) ^ (e' + 1) ≤ 2 ^ e := zpow_le_zpow_right₀ one_le_two (by omega)
  rw [zpow_add_one₀ two_ne_zero] at hpow
  linarith [h'.lt, h.le (by omega)]

theorem unique (h : HasExponent q e) (h' : HasExponent q e') : e = e' :=
  Int.le_antisymm (h.le_of_hasExponent h') (h'.le_of_hasExponent h)

theorem of_bounds (hle : 2 ^ 52 * 2 ^ e ≤ q) (hlt : q < 2 ^ 53 * 2 ^ e) :
    HasExponent q (max e leastExponent) where
  lt := hlt.trans_le (by gcongr; exacts [one_le_two, Int.le_max_left _ _])
  least_le := Int.le_max_right _ _
  le hne := by
    rw [show max e leastExponent = e by omega]
    exact hle

end HasExponent

/-- A quotient in terms of the numbers of bits of its parts. -/
theorem div_bounds_log2 (hn : numerator ≠ 0) (hd : denominator ≠ 0) :
    (2 : ℚ) ^ ((numerator.log2 : ℤ) - denominator.log2 - 1) ≤ numerator / denominator ∧
      (numerator : ℚ) / denominator < 2 ^ ((numerator.log2 : ℤ) - denominator.log2 + 1) := by
  have hpos : (0 : ℚ) < denominator := Nat.cast_pos.2 (Nat.pos_of_ne_zero hd)
  have hnlow : (2 : ℚ) ^ numerator.log2 ≤ numerator := by exact_mod_cast Nat.log2_self_le hn
  have hnhigh : (numerator : ℚ) < 2 ^ (numerator.log2 + 1) := by exact_mod_cast Nat.lt_log2_self
  have hdlow : (2 : ℚ) ^ denominator.log2 ≤ denominator := by exact_mod_cast Nat.log2_self_le hd
  have hdhigh : (denominator : ℚ) < 2 ^ (denominator.log2 + 1) := by
    exact_mod_cast Nat.lt_log2_self
  constructor
  · rw [le_div_iff₀ hpos]
    calc (2 : ℚ) ^ ((numerator.log2 : ℤ) - denominator.log2 - 1) * denominator
        ≤ 2 ^ ((numerator.log2 : ℤ) - denominator.log2 - 1) * 2 ^ (denominator.log2 + 1) := by
          gcongr
      _ = 2 ^ numerator.log2 := by
        rw [← zpow_natCast, ← zpow_natCast, ← zpow_add₀ two_ne_zero]
        congr 1
        push_cast
        ring
      _ ≤ numerator := hnlow
  · rw [div_lt_iff₀ hpos]
    calc (numerator : ℚ) < 2 ^ (numerator.log2 + 1) := hnhigh
      _ = 2 ^ ((numerator.log2 : ℤ) - denominator.log2 + 1) * 2 ^ denominator.log2 := by
        rw [← zpow_natCast, ← zpow_natCast, ← zpow_add₀ two_ne_zero]
        congr 1
        push_cast
        ring
      _ ≤ 2 ^ ((numerator.log2 : ℤ) - denominator.log2 + 1) * denominator := by gcongr

/-- **The exponent that a quotient gets.** -/
theorem hasExponent_exponentOf (hn : numerator ≠ 0) (hd : denominator ≠ 0) :
    HasExponent (numerator / denominator) (exponentOf numerator denominator) := by
  obtain ⟨hlow, hhigh⟩ := div_bounds_log2 hn hd
  have hpos : (0 : ℚ) < denominator := Nat.cast_pos.2 (Nat.pos_of_ne_zero hd)
  generalize hguess : (numerator.log2 : ℤ) - denominator.log2 - precision = guess
  have hprecision : (precision : ℤ) = 53 := rfl
  rw [show (numerator.log2 : ℤ) - denominator.log2 - 1 = (52 : ℕ) + guess by omega,
    zpow_add₀ two_ne_zero, zpow_natCast] at hlow
  rw [show (numerator.log2 : ℤ) - denominator.log2 + 1 = (53 : ℕ) + (guess + 1) by omega,
    zpow_add₀ two_ne_zero, zpow_natCast] at hhigh
  have hdown : (0 : ℚ) < (powers 2 guess).2 := Nat.cast_pos.2 (powers_snd_pos two_pos guess)
  -- The guess from the numbers of bits is right or one too small.
  have hcompare :
      numerator * (powers 2 guess).2 < denominator * (powers 2 guess).1 * mantissaBound ↔
      (numerator : ℚ) / denominator < 2 ^ 53 * 2 ^ guess := by
    have hright : ((denominator * (powers 2 guess).1 * mantissaBound : ℕ) : ℚ)
        = 2 ^ 53 * 2 ^ guess * denominator * (powers 2 guess).2 := by
      rw [Nat.cast_mul, Nat.cast_mul, powers_fst_eq two_pos, cast_mantissaBound]
      push_cast
      ring
    rw [div_lt_iff₀ hpos, ← mul_lt_mul_iff_left₀ hdown, ← hright, ← Nat.cast_mul, Nat.cast_lt]
  simp only [exponentOf, hguess, hcompare]
  split
  · next hlt => exact .of_bounds hlow hlt
  · next hge =>
    refine .of_bounds ?_ hhigh
    rw [zpow_add_one₀ two_ne_zero]
    linarith

/-! ## Which quotients are rounded to a number -/

/-- How far below a number its quotients reach, in units of its exponent: half a unit, but a
quarter where the number below has a smaller exponent. -/
def margin (m : ℕ) (e : ℤ) : ℚ := if m = mantissaBound / 2 ∧ leastExponent < e then 1 / 4 else 1 / 2

/-- A quotient lies between the halfway points around a number, or on one if the mantissa is
even. -/
def Rounds (q : ℚ) (m : ℕ) (e : ℤ) : Prop :=
  (m - margin m e < q / 2 ^ e ∧ q / 2 ^ e < m + 1 / 2) ∨
    (m % 2 = 0 ∧ m - margin m e ≤ q / 2 ^ e ∧ q / 2 ^ e ≤ m + 1 / 2)

theorem margin_le (m : ℕ) (e : ℤ) : margin m e ≤ 1 / 2 := by
  rw [margin]
  split <;> norm_num

theorem margin_ge (m : ℕ) (e : ℤ) : 1 / 4 ≤ margin m e := by
  rw [margin]
  split <;> norm_num

namespace Rounds

theorem nearest (h : Rounds q m e) : Nearest (q / 2 ^ e) m := by
  have hmargin := margin_le m e
  rcases h with ⟨hlow, hhigh⟩ | ⟨heven, hlow, hhigh⟩
  · exact .inl ⟨by linarith, hhigh⟩
  · exact .inr ⟨heven, by linarith, hhigh⟩

theorem sub_margin_le (h : Rounds q m e) : m - margin m e ≤ q / 2 ^ e := by
  rcases h with ⟨hlow, -⟩ | ⟨-, hlow, -⟩
  · exact hlow.le
  · exact hlow

theorem pos (h : Rounds q m e) (hm : m ≠ 0) : 0 < q := by
  have hone : (1 : ℚ) ≤ m := by exact_mod_cast Nat.one_le_iff_ne_zero.2 hm
  have hquotient : 0 < q / 2 ^ e := by linarith [h.sub_margin_le, margin_le m e]
  exact (div_pos_iff_of_pos_right (by positivity)).1 hquotient

/-- The exponent and the mantissa that a quotient gets are those of the number that it is rounded
to; below a power of two they may be those of the carry. -/
theorem cases (h : Rounds q m e) (hx : (finite negative m e).Canonical) :
    (HasExponent q e ∧ Nearest (q / 2 ^ e) m) ∨
    (HasExponent q (e - 1) ∧ Nearest (q / 2 ^ (e - 1)) mantissaBound ∧ m = mantissaBound / 2) := by
  obtain ⟨hbound, hleast, -, hfull⟩ := hx
  have hunit : (0 : ℚ) < 2 ^ e := by positivity
  have hm : (m : ℚ) + 1 ≤ 2 ^ 53 := by exact_mod_cast hbound
  have hhigh : q < 2 ^ 53 * 2 ^ e := by
    rw [← div_lt_iff₀ hunit]
    linarith [h.nearest.le_add]
  by_cases hlow : e ≠ leastExponent → 2 ^ 52 * 2 ^ e ≤ q
  · exact .inl ⟨⟨hhigh, hleast, hlow⟩, h.nearest⟩
  · rw [Classical.not_imp, not_le, ← div_lt_iff₀ hunit] at hlow
    obtain ⟨hne, hlow⟩ := hlow
    -- So the number is a power of two, and the quotient lies less than a quarter below it.
    have hfull := hfull.resolve_right hne
    have hhalf : (2 : ℚ) ^ 52 ≤ m := by
      rw [← cast_mantissaBound_half]
      exact_mod_cast hfull
    have hpower : m = mantissaBound / 2 := by
      have hlt : (m : ℚ) < (mantissaBound / 2 : ℕ) + 1 := by
        rw [cast_mantissaBound_half]
        linarith [h.sub_margin_le, margin_le m e]
      have : m < mantissaBound / 2 + 1 := by exact_mod_cast hlt
      omega
    have hmargin : margin m e = 1 / 4 := if_pos ⟨hpower, lt_of_le_of_ne hleast hne.symm⟩
    have hnear := h.sub_margin_le
    have hdouble : q / 2 ^ (e - 1) = 2 * (q / 2 ^ e) := by
      rw [zpow_sub_one₀ two_ne_zero]
      field_simp
    refine .inr ⟨⟨?_, ?_, ?_⟩, .inr ⟨by decide, ?_, ?_⟩, hpower⟩
    · rw [← div_lt_iff₀ (by positivity), hdouble]
      linarith
    · omega
    · intro _
      rw [← le_div_iff₀ (by positivity), hdouble]
      linarith
    · rw [cast_mantissaBound, hdouble]
      linarith
    · rw [cast_mantissaBound, hdouble]
      linarith

end Rounds

/-- The quotient that is rounded to a mantissa, in terms of the exponent. -/
theorem scaled_eq (hd : denominator ≠ 0) (e : ℤ) :
    ((numerator * (powers 2 e).2 : ℕ) : ℚ) / (denominator * (powers 2 e).1 : ℕ)
      = numerator / denominator / 2 ^ e := by
  have hdown : ((powers 2 e).2 : ℚ) ≠ 0 := Nat.cast_ne_zero.2 (powers_snd_pos two_pos e).ne'
  have hd' : (denominator : ℚ) ≠ 0 := Nat.cast_ne_zero.2 hd
  push_cast
  rw [powers_fst_eq two_pos]
  push_cast
  field_simp

theorem nearest_mantissa (hd : denominator ≠ 0) (e : ℤ) :
    Nearest (numerator / denominator / 2 ^ e)
      (roundHalfEven (numerator * (powers 2 e).2) (denominator * (powers 2 e).1)) := by
  rw [← scaled_eq hd]
  exact nearest_roundHalfEven _
    (Nat.mul_pos (Nat.pos_of_ne_zero hd) (powers_fst_pos two_pos e))

/-- A mantissa and an exponent as a number; a mantissa that is too long by a carry is halved. -/
def normalized (negative : Bool) (m : ℕ) (e : ℤ) : Binary64 :=
  if m = mantissaBound then
    if e + 1 ≤ greatestExponent then finite negative (mantissaBound / 2) (e + 1)
    else infinite negative
  else if e ≤ greatestExponent then finite negative m e
  else infinite negative

/-- A quotient is rounded to the nearest mantissa for its exponent. -/
theorem ofRatio_eq_normalized (negative : Bool) (hn : numerator ≠ 0) (hd : denominator ≠ 0) :
    ∃ m e, HasExponent (numerator / denominator) e ∧ Nearest (numerator / denominator / 2 ^ e) m ∧
      ofRatio negative numerator denominator = normalized negative m e := by
  refine ⟨_, _, hasExponent_exponentOf hn hd, nearest_mantissa hd _, ?_⟩
  rw [ofRatio, if_neg hn, normalized]
  generalize exponentOf numerator denominator = e
  extract_lets exponent
  rw [show e = exponent from rfl]
  clear_value exponent
  -- The power is made a pair of variables, so that no comparison computes it.
  generalize powers 2 exponent = power
  obtain ⟨up, down⟩ := power
  dsimp only
  by_cases hcarry : roundHalfEven (numerator * down) (denominator * up) = mantissaBound
  · simp only [if_pos hcarry]
  · simp only [if_neg hcarry]

/-- **Quotients between the halfway points around a number are rounded to it.** -/
theorem ofRatio_eq_of_rounds (hd : denominator ≠ 0) (hx : (finite negative m e).Canonical)
    (hm : m ≠ 0) (h : Rounds (numerator / denominator) m e) :
    ofRatio negative numerator denominator = finite negative m e := by
  have hn : numerator ≠ 0 := by
    rintro rfl
    have := h.pos hm
    simp at this
  obtain ⟨m', e', hexponent, hmantissa, heq⟩ := ofRatio_eq_normalized negative hn hd
  obtain ⟨hbound, -, hgreatest, -⟩ := id hx
  rw [heq, normalized]
  rcases h.cases hx with ⟨hown, hnearest⟩ | ⟨hlower, hnearest, rfl⟩
  · obtain rfl := hexponent.unique hown
    rw [hmantissa.unique hnearest, if_neg hbound.ne, if_pos hgreatest]
  · obtain rfl := hexponent.unique hlower
    rw [if_pos (hmantissa.unique hnearest), sub_add_cancel, if_pos hgreatest]

/-! ## What is read is a number of the format -/

theorem mantissaBound_pos : 0 < mantissaBound := Nat.pow_pos two_pos

theorem canonical_zero : (finite negative 0 leastExponent).Canonical :=
  ⟨mantissaBound_pos, le_rfl, (by decide : leastExponent ≤ greatestExponent), .inr rfl⟩

/-- A mantissa is of full length or one too long, unless the exponent is the least. -/
theorem mantissa_bounds (hexponent : HasExponent q e) (hmantissa : Nearest (q / 2 ^ e) m) :
    m ≤ mantissaBound ∧ (mantissaBound / 2 ≤ m ∨ e = leastExponent) := by
  have hunit : (0 : ℚ) < 2 ^ e := by positivity
  constructor
  · refine hmantissa.le_of_lt ?_
    rw [div_lt_iff₀ hunit, cast_mantissaBound]
    exact hexponent.lt
  · by_cases hne : e = leastExponent
    · exact .inr hne
    · refine .inl (hmantissa.ge_of_le ?_)
      rw [le_div_iff₀ hunit, cast_mantissaBound_half]
      exact hexponent.le hne

theorem canonical_ofRatio (negative : Bool) (numerator : ℕ) (hd : denominator ≠ 0) :
    (ofRatio negative numerator denominator).Canonical := by
  by_cases hn : numerator = 0
  · rw [ofRatio, if_pos hn]
    exact canonical_zero
  · obtain ⟨m, e, hexponent, hmantissa, heq⟩ := ofRatio_eq_normalized negative hn hd
    obtain ⟨hle, hfull⟩ := mantissa_bounds hexponent hmantissa
    have hleast := hexponent.least_le
    rw [heq, normalized]
    split
    · split
      · next hgreatest =>
        exact ⟨Nat.div_lt_self mantissaBound_pos one_lt_two, hleast.trans (Int.le_add_one le_rfl),
          hgreatest, .inl le_rfl⟩
      · trivial
    · next hcarry =>
      split
      · next hgreatest => exact ⟨lt_of_le_of_ne hle hcarry, hleast, hgreatest, hfull⟩
      · trivial

theorem canonical_ofDecimal (negative : Bool) (value : ℕ) (exponent : ℤ) :
    (ofDecimal negative value exponent).Canonical := by
  simp only [ofDecimal]
  split
  · exact canonical_zero
  · split
    · trivial
    · exact canonical_ofRatio _ _ (powers_snd_pos (by decide) exponent).ne'

/-- **What a word writes is a number of the format.** -/
theorem canonical_number? {word : List Char} {x : Binary64} (h : number? word = some x) :
    x.Canonical := by
  simp only [number?] at h
  split at h
  · cases h
    trivial
  · split at h
    · cases h
      trivial
    · -- With a point or without one, there are digits and an exponent.
      split at h <;> split at h
      · cases h
      · obtain ⟨exponent, -, rfl⟩ := Option.map_eq_some_iff.1 h
        exact canonical_ofDecimal _ _ _
      · cases h
      · obtain ⟨exponent, -, rfl⟩ := Option.map_eq_some_iff.1 h
        exact canonical_ofDecimal _ _ _

end Binary64

end FieldTree.Decimal
