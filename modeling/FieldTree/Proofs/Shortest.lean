/-
# The text of a number is read back as the number

The shortest decimal of a number lies between the halfway points around it: the grids of powers of
ten are tried from coarse to fine, and the finest has a step too small to miss.  Its text writes
that decimal, with zeros or a point as needed, so what is read from it is rounded to the number.

* `Binary64.rounds_of_onGrid?`, `Binary64.onGrid?_isSome` : what is found on a grid, and that on a
  fine grid something is;
* `Binary64.rounds_shortest` : the shortest decimal of a number is rounded to it;
* `Scaled.exists_number?_text` : the text of a decimal writes its value;
* `Binary64.number?_text` : numbers survive writing and reading.
-/
import FieldTree.Decimal.Shortest
import FieldTree.Proofs.Numerals
import FieldTree.Proofs.Rounding
import Mathlib.Data.List.TakeWhile

namespace FieldTree.Decimal

/-- What a decimal stands for. -/
def Scaled.value (d : Scaled) : ℚ := d.digits * 10 ^ d.exponent

namespace Binary64

variable {m step unit value c : ℕ} {e power : ℤ} {negative : Bool} {d : Scaled}

/-! ## Multiples of a power of ten -/

/-- Whether a multiple of a step lies between the halfway points around a number, where both are
given in one small unit. -/
def inside (m : ℕ) (e : ℤ) (step unit c : ℕ) : Bool :=
  if m % 2 = 0 then
    (4 * m - (if m = mantissaBound / 2 ∧ leastExponent < e then 1 else 2)) * unit ≤ c * step &&
      c * step ≤ (4 * m + 2) * unit
  else
    (4 * m - (if m = mantissaBound / 2 ∧ leastExponent < e then 1 else 2)) * unit < c * step &&
      c * step < (4 * m + 2) * unit

/-- Of two multiples next to a value one that is inside, and the nearer one if both are. -/
def besides (inside : ℕ → Bool) (value step : ℕ) (power : ℤ) : Option Scaled :=
  let below := value / step
  let nearerBelow : Bool := value - below * step < (below + 1) * step - value
  if inside below && (nearerBelow || !inside (below + 1)) then some ⟨below, power⟩
  else if inside (below + 1) then some ⟨below + 1, power⟩
  else none

theorem onGrid?_eq (m : ℕ) (e power : ℤ) :
    onGrid? m e power =
      let step := (powers 10 power).1 * (powers 2 (e - 2)).2
      let unit := (powers 10 power).2 * (powers 2 (e - 2)).1
      besides (inside m e step unit) (4 * m * unit) step power := by
  rw [onGrid?]
  generalize powers 10 power = ten
  obtain ⟨tenUp, tenDown⟩ := ten
  generalize powers 2 (e - 2) = two
  obtain ⟨twoUp, twoDown⟩ := two
  rfl

theorem besides_eq_some {within : ℕ → Bool} (h : besides within value step power = some d) :
    d.exponent = power ∧ within d.digits = true := by
  simp only [besides] at h
  split at h
  · next hbelow =>
    cases h
    exact ⟨rfl, (Bool.and_eq_true_iff.1 hbelow).1⟩
  · split at h
    · next habove =>
      cases h
      exact ⟨rfl, habove⟩
    · cases h

theorem besides_isSome {within : ℕ → Bool} (h : within (value / step + 1) = true) :
    (besides within value step power).isSome = true := by
  simp only [besides]
  split
  · rfl
  · rfl

/-- In the small unit, a multiple of the step is a multiple of the power of ten, and four small
units are a unit of the exponent. -/
theorem cast_step_unit (e power : ℤ) : ∃ scale : ℚ, 0 < scale ∧
    (∀ c : ℕ, ((c * ((powers 10 power).1 * (powers 2 (e - 2)).2) : ℕ) : ℚ)
      = c * 10 ^ power / 2 ^ e * scale) ∧
    ∀ k : ℕ, ((k * ((powers 10 power).2 * (powers 2 (e - 2)).1) : ℕ) : ℚ) = k / 4 * scale := by
  have hten : (0 : ℚ) < (powers 10 power).2 := Nat.cast_pos.2 (powers_snd_pos (by decide) power)
  have htwo : (0 : ℚ) < (powers 2 (e - 2)).2 := Nat.cast_pos.2 (powers_snd_pos two_pos (e - 2))
  refine ⟨2 ^ e * ((powers 10 power).2 * (powers 2 (e - 2)).2), by positivity, fun c => ?_,
    fun k => ?_⟩
  · push_cast
    rw [powers_fst_eq (by decide : 0 < 10)]
    push_cast
    field_simp
  · push_cast
    rw [powers_fst_eq two_pos]
    push_cast
    rw [zpow_sub₀ two_ne_zero]
    field_simp
    norm_num

/-- **A multiple is inside if it is rounded to the number.** -/
theorem inside_iff (hm : m ≠ 0) : inside m e ((powers 10 power).1 * (powers 2 (e - 2)).2)
    ((powers 10 power).2 * (powers 2 (e - 2)).1) c = true ↔ Rounds (c * 10 ^ power) m e := by
  obtain ⟨scale, hscale, hstep, hunit⟩ := cast_step_unit e power
  generalize (powers 10 power).1 * (powers 2 (e - 2)).2 = step at hstep ⊢
  generalize (powers 10 power).2 * (powers 2 (e - 2)).1 = unit at hunit ⊢
  have hlow : ((4 * m - (if m = mantissaBound / 2 ∧ leastExponent < e then 1 else 2) : ℕ) : ℚ) / 4
      = m - margin m e := by
    rw [margin]
    split
    · rw [Nat.cast_sub (by omega)]
      push_cast
      ring
    · rw [Nat.cast_sub (by omega)]
      push_cast
      ring
  have hhigh : ((4 * m + 2 : ℕ) : ℚ) / 4 = m + 1 / 2 := by
    push_cast
    ring
  have hlt : ∀ k : ℕ, k * unit < c * step ↔ (k : ℚ) / 4 < c * 10 ^ power / 2 ^ e := by
    intro k
    rw [← Nat.cast_lt (α := ℚ), hstep, hunit, mul_lt_mul_iff_left₀ hscale]
  have hgt : ∀ k : ℕ, c * step < k * unit ↔ c * 10 ^ power / 2 ^ e < (k : ℚ) / 4 := by
    intro k
    rw [← Nat.cast_lt (α := ℚ), hstep, hunit, mul_lt_mul_iff_left₀ hscale]
  rw [inside]
  generalize 4 * m - (if m = mantissaBound / 2 ∧ leastExponent < e then 1 else 2) = low at hlow ⊢
  generalize 4 * m + 2 = high at hhigh ⊢
  by_cases heven : m % 2 = 0
  · rw [if_pos heven, Bool.and_eq_true_iff, decide_eq_true_iff, decide_eq_true_iff, ← not_lt,
      ← not_lt, hgt, hlt, not_lt, not_lt, hlow, hhigh]
    constructor
    · rintro ⟨h, h'⟩
      exact .inr ⟨heven, h, h'⟩
    · rintro (⟨h, h'⟩ | ⟨-, h, h'⟩)
      · exact ⟨h.le, h'.le⟩
      · exact ⟨h, h'⟩
  · rw [if_neg heven, Bool.and_eq_true_iff, decide_eq_true_iff, decide_eq_true_iff, hlt, hgt, hlow,
      hhigh]
    constructor
    · exact .inl
    · rintro (h | ⟨hcontra, -⟩)
      · exact h
      · exact absurd hcontra heven

/-- What is found on a grid is rounded to the number. -/
theorem rounds_of_onGrid? (hm : m ≠ 0) (h : onGrid? m e power = some d) : Rounds d.value m e := by
  rw [onGrid?_eq] at h
  obtain ⟨hexponent, hinside⟩ := besides_eq_some h
  rw [Scaled.value, hexponent]
  exact (inside_iff hm).1 hinside

/-- On a grid whose step is less than half a unit something is found. -/
theorem onGrid?_isSome (hm : m ≠ 0) (hfine : 2 * (10 : ℚ) ^ power < 2 ^ e) :
    (onGrid? m e power).isSome = true := by
  rw [onGrid?_eq]
  apply besides_isSome
  rw [inside_iff hm]
  obtain ⟨scale, hscale, hstep, hunit⟩ := cast_step_unit e power
  have hpos : 0 < (powers 10 power).1 * (powers 2 (e - 2)).2 :=
    Nat.mul_pos (powers_fst_pos (by decide) power) (powers_snd_pos two_pos (e - 2))
  generalize (powers 10 power).1 * (powers 2 (e - 2)).2 = step at hstep hpos ⊢
  generalize (powers 10 power).2 * (powers 2 (e - 2)).1 = unit at hunit ⊢
  have hbelow : 4 * m * unit / step * step ≤ 4 * m * unit := Nat.div_mul_le_self _ _
  have habove : 4 * m * unit < (4 * m * unit / step + 1) * step := by
    rw [Nat.add_mul, Nat.one_mul]
    exact Nat.lt_div_mul_add hpos
  generalize 4 * m * unit / step = below at hbelow habove ⊢
  rw [← Nat.cast_le (α := ℚ), hstep, hunit, mul_le_mul_iff_left₀ hscale] at hbelow
  rw [← Nat.cast_lt (α := ℚ), hstep, hunit, mul_lt_mul_iff_left₀ hscale] at habove
  push_cast at hbelow habove ⊢
  have hwidth : (10 : ℚ) ^ power / 2 ^ e < 1 / 2 := by
    rw [div_lt_div_iff₀ (by positivity) two_pos]
    linarith
  have hmargin := margin_ge m e
  refine .inl ⟨by linarith, ?_⟩
  calc ((below : ℚ) + 1) * 10 ^ power / 2 ^ e
      = below * 10 ^ power / 2 ^ e + 10 ^ power / 2 ^ e := by ring
    _ < m + 1 / 2 := by linarith

/-! ## The shortest decimal -/

theorem value_trimmed (fuel : ℕ) (d : Scaled) : (d.trimmed fuel).value = d.value := by
  induction fuel generalizing d with
  | zero => rfl
  | succ fuel ih =>
    rw [Scaled.trimmed]
    split
    · next hzero =>
      rw [ih, Scaled.value, Scaled.value, zpow_add_one₀ (by norm_num)]
      have hdigits : (d.digits : ℚ) = 10 * (d.digits / 10 : ℕ) := by
        have : d.digits = 10 * (d.digits / 10) := by omega
        exact_mod_cast this
      rw [hdigits]
      ring
    · rfl

/-- **The shortest decimal of a number is rounded to it.** -/
theorem rounds_shortest (hm : m ≠ 0) (he : leastExponent ≤ e) :
    Rounds (shortest m e).value m e := by
  rw [shortest, value_trimmed]
  have hfine : 2 * (10 : ℚ) ^ (310 - (659 : ℕ) : ℤ) < 2 ^ e := by
    have hleast : (2 : ℚ) ^ leastExponent ≤ 2 ^ e := zpow_le_zpow_right₀ one_le_two he
    have hsmall : 2 * (10 : ℚ) ^ (310 - (659 : ℕ) : ℤ) < 2 ^ leastExponent := by
      have hpowers : 2 * 2 ^ 1074 < 10 ^ 349 := by decide +kernel
      rw [show (310 - (659 : ℕ) : ℤ) = -(349 : ℕ) from rfl,
        show leastExponent = -(1074 : ℕ) from rfl, zpow_neg, zpow_neg, zpow_natCast, zpow_natCast,
        ← div_eq_mul_inv, div_lt_iff₀ (by positivity), ← div_eq_inv_mul,
        lt_div_iff₀ (by positivity)]
      exact_mod_cast hpowers
    exact hsmall.trans_le hleast
  have hsome : ((List.range 660).findSome? fun (i : ℕ) =>
      onGrid? m e (310 - (i : ℤ))).isSome = true :=
    List.findSome?_isSome_iff.2 ⟨659, List.mem_range.2 (by decide), onGrid?_isSome hm hfine⟩
  obtain ⟨d, hd⟩ := Option.isSome_iff_exists.1 hsome
  obtain ⟨i, -, hi⟩ := List.exists_of_findSome?_eq_some hd
  rw [hd]
  exact rounds_of_onGrid? hm hi

end Binary64

/-! ## Words of digits with a sign and a point -/

/-- A word with the sign of a number. -/
def signed (negative : Bool) (word : List Char) : List Char :=
  if negative then '-' :: word else word

section Words

variable {negative : Bool} {c d : Char} {word rest whole fraction : List Char}

theorem ne_of_isDigit (hc : c.isDigit = true) (hd : d.isDigit = false) : c ≠ d := by
  rintro rfl
  exact Bool.false_ne_true (hd.symm.trans hc)

theorem toLower_of_isDigit (hc : c.isDigit = true) : c.toLower = c := by
  simp only [Char.isDigit, Bool.and_eq_true, decide_eq_true_iff] at hc
  refine dif_neg fun hupper => ?_
  exact absurd (UInt32.le_trans hupper.1 hc.2) (by decide)

/-- The sign is told apart from a word that starts with a digit. -/
theorem splitSign_signed (negative : Bool) (hword : ∀ c ∈ word.head?, c.isDigit = true) :
    splitSign (signed negative word) = (negative, word) := by
  cases negative with
  | true => rfl
  | false =>
    rw [signed, if_neg Bool.false_ne_true, splitSign.eq_def]
    split
    · exact absurd rfl (ne_of_isDigit (hword _ rfl) (by decide : '-'.isDigit = false))
    · exact absurd rfl (ne_of_isDigit (hword _ rfl) (by decide : '+'.isDigit = false))
    · rfl

/-- A word that starts with a digit is no word for the infinite or for no number. -/
theorem map_toLower_ne (hc : c.isDigit = true) (rest : List Char) :
    ¬ ((c :: rest).map Char.toLower = "inf".toList ∨
      (c :: rest).map Char.toLower = "infinity".toList) ∧
    (c :: rest).map Char.toLower ≠ "nan".toList := by
  have hword : ∀ {d : Char} {word : List Char}, d.isDigit = false →
      (c :: rest).map Char.toLower ≠ d :: word := by
    intro d word hd heq
    rw [List.map_cons, toLower_of_isDigit hc] at heq
    exact ne_of_isDigit hc hd (List.cons.inj heq).1
  exact ⟨not_or.2 ⟨hword (by decide), hword (by decide)⟩, hword (by decide)⟩

/-- **A word of digits writes a whole number.** -/
theorem number?_whole (hsign : splitSign word = (negative, whole)) (hne : whole ≠ [])
    (hwhole : ∀ c ∈ whole, c.isDigit = true) :
    number? word = some (.ofDecimal negative (ofDigits 10 whole) 0) := by
  obtain ⟨c, rest, rfl⟩ := List.exists_cons_of_ne_nil hne
  obtain ⟨hinfinite, hnan⟩ := map_toLower_ne (hwhole c List.mem_cons_self) rest
  have hdrop : (c :: rest).dropWhile Char.isDigit = [] := List.dropWhile_eq_nil_iff.2 hwhole
  have htake : (c :: rest).takeWhile Char.isDigit = c :: rest := List.takeWhile_eq_self_iff.2 hwhole
  simp only [number?, hsign, if_neg hinfinite, if_neg hnan, hdrop, htake, List.append_nil,
    if_neg hne, exponent?, Option.map_some, List.length_nil, Nat.cast_zero, sub_zero]

/-- **Digits on both sides of a point write a fraction.** -/
theorem number?_point (hsign : splitSign word = (negative, whole ++ '.' :: fraction))
    (hne : whole ≠ []) (hwhole : ∀ c ∈ whole, c.isDigit = true)
    (hfraction : ∀ c ∈ fraction, c.isDigit = true) :
    number? word
      = some (.ofDecimal negative (ofDigits 10 (whole ++ fraction)) (-fraction.length)) := by
  obtain ⟨c, rest, rfl⟩ := List.exists_cons_of_ne_nil hne
  obtain ⟨hinfinite, hnan⟩ :=
    map_toLower_ne (hwhole c List.mem_cons_self) (rest ++ '.' :: fraction)
  rw [← List.cons_append] at hinfinite hnan
  have hdrop : ((c :: rest) ++ '.' :: fraction).dropWhile Char.isDigit = '.' :: fraction := by
    rw [List.dropWhile_append_of_pos hwhole]
    rfl
  have htake : ((c :: rest) ++ '.' :: fraction).takeWhile Char.isDigit = c :: rest := by
    rw [List.takeWhile_append_of_pos hwhole]
    exact List.append_nil _
  have hdrop' : fraction.dropWhile Char.isDigit = [] := List.dropWhile_eq_nil_iff.2 hfraction
  have htake' : fraction.takeWhile Char.isDigit = fraction :=
    List.takeWhile_eq_self_iff.2 hfraction
  have hdigits : (c :: rest) ++ fraction ≠ [] := List.cons_ne_nil _ _
  simp only [number?, hsign, if_neg hinfinite, if_neg hnan, hdrop, htake, hdrop', htake',
    if_neg hdigits, exponent?, Option.map_some, zero_sub]

end Words

/-! ## Zeros -/

theorem ofDigits_replicate_append (k : ℕ) (s : List Char) :
    ofDigits 10 (List.replicate k '0' ++ s) = ofDigits 10 s := by
  induction k with
  | zero => rfl
  | succ k ih => exact ih

/-- Zeros are put behind the digits of a number by multiplying it with a power of ten. -/
theorem digits_mul_pow {n : ℕ} (hn : n ≠ 0) (k : ℕ) :
    digits (n * 10 ^ k) = digits n ++ List.replicate k '0' := by
  induction k with
  | zero => rw [pow_zero, mul_one, List.replicate_zero, List.append_nil]
  | succ k ih =>
    have hpos : 0 < n * 10 ^ k := Nat.mul_pos (Nat.pos_of_ne_zero hn) (Nat.pow_pos (by decide))
    have hlast := Nat.toDigits_append_toDigits (b := 10) (d := 0) (by decide) hpos (by decide)
    rw [List.replicate_succ', ← List.append_assoc, ← ih, pow_succ, ← mul_assoc, mul_comm _ 10]
    exact hlast.symm

theorem splitSign_signed_digits (negative : Bool) (n : ℕ) :
    splitSign (signed negative (digits n)) = (negative, digits n) :=
  splitSign_signed negative fun _ hc => isDigit_of_mem_digits (List.mem_of_mem_head? hc)

theorem splitSign_signed_point (negative : Bool) {whole fraction : List Char} (hne : whole ≠ [])
    (hwhole : ∀ c ∈ whole, c.isDigit = true) :
    splitSign (signed negative (whole ++ '.' :: fraction))
      = (negative, whole ++ '.' :: fraction) := by
  refine splitSign_signed negative fun c hc => ?_
  rw [List.head?_append_of_ne_nil _ hne] at hc
  exact hwhole c (List.mem_of_mem_head? hc)

namespace Scaled

variable {d : Scaled}

theorem isDigit_of_mem_replicate {k : ℕ} {c : Char} (h : c ∈ List.replicate k '0') :
    c.isDigit = true := by
  rw [List.eq_of_mem_replicate h]
  rfl

/-- Without a fraction the text of a decimal is that of a whole number. -/
theorem text_of_whole (hd : d.digits ≠ 0) (hexponent : 0 ≤ d.exponent) :
    d.text.toList = Decimal.digits (d.digits * 10 ^ d.exponent.toNat) := by
  rw [text, if_pos hexponent, String.toList_ofList, digits_mul_pow hd]

/-- With a fraction the text of a decimal has digits on both sides of a point. -/
theorem text_of_fraction (hexponent : d.exponent < 0) : ∃ whole fraction,
    d.text.toList = whole ++ '.' :: fraction ∧ whole ≠ [] ∧
      (∀ c ∈ whole ++ fraction, c.isDigit = true) ∧
      ofDigits 10 (whole ++ fraction) = d.digits ∧ (fraction.length : ℤ) = -d.exponent := by
  rw [text, if_neg (not_le.2 hexponent), String.toList_ofList]
  generalize hplaces : (-d.exponent).toNat = places
  have hlength : places + 1 ≤ (List.replicate (places + 1 - (Decimal.digits d.digits).length) '0'
      ++ Decimal.digits d.digits).length := by
    rw [List.length_append, List.length_replicate]
    omega
  have hvalue := ofDigits_replicate_append (places + 1 - (Decimal.digits d.digits).length)
    (Decimal.digits d.digits)
  have hdigits : ∀ c ∈ List.replicate (places + 1 - (Decimal.digits d.digits).length) '0'
      ++ Decimal.digits d.digits, c.isDigit = true := by
    intro c hc
    rcases List.mem_append.1 hc with hc | hc
    · exact isDigit_of_mem_replicate hc
    · exact isDigit_of_mem_digits hc
  generalize List.replicate (places + 1 - (Decimal.digits d.digits).length) '0'
    ++ Decimal.digits d.digits = padded at hlength hvalue hdigits
  refine ⟨_, _, rfl, ?_, ?_, ?_, ?_⟩
  · rw [Ne, List.take_eq_nil_iff]
    rintro (hzero | rfl)
    · omega
    · cases hlength
  · rw [List.take_append_drop]
    exact hdigits
  · rw [List.take_append_drop, hvalue, ofDigits_digits]
  · rw [List.length_drop]
    omega

/-- **The text of a decimal writes its value.** -/
theorem exists_number?_text (negative : Bool) (hd : d.digits ≠ 0) : ∃ (value : ℕ) (exponent : ℤ),
    number? (signed negative d.text.toList) = some (.ofDecimal negative value exponent) ∧
      value * 10 ^ exponent = d.value := by
  by_cases hexponent : 0 ≤ d.exponent
  · refine ⟨d.digits * 10 ^ d.exponent.toNat, 0, ?_, ?_⟩
    · rw [text_of_whole hd hexponent, number?_whole (splitSign_signed_digits negative _)
        Nat.toDigits_ne_nil fun c hc => isDigit_of_mem_digits hc, ofDigits_digits]
    · obtain ⟨k, hk⟩ := Int.eq_ofNat_of_zero_le hexponent
      rw [value, hk, Int.toNat_natCast, zpow_zero, mul_one, zpow_natCast]
      push_cast
      rfl
  · obtain ⟨whole, fraction, htext, hne, hdigits, hvalue, hlength⟩ :=
      text_of_fraction (not_le.1 hexponent)
    rw [List.forall_mem_append] at hdigits
    refine ⟨d.digits, d.exponent, ?_, rfl⟩
    rw [htext, number?_point (splitSign_signed_point negative hne hdigits.1) hne hdigits.1
      hdigits.2, hvalue, hlength, neg_neg]

end Scaled

namespace Binary64

variable {m value : ℕ} {e exponent : ℤ} {negative : Bool}

/-! ## Reading back -/

/-- A number in terms of the number of its digits. -/
theorem digits_bounds (hvalue : value ≠ 0) (exponent : ℤ) :
    (10 : ℚ) ^ ((digits value).length + exponent - 1) ≤ value * 10 ^ exponent ∧
      (value : ℚ) * 10 ^ exponent < 10 ^ ((digits value).length + exponent) := by
  have hlength : 0 < (digits value).length := Nat.length_toDigits_pos
  have hbelow : value < 10 ^ (digits value).length :=
    (Nat.length_toDigits_le_iff (by decide) hlength).1 le_rfl
  have habove : 10 ^ ((digits value).length - 1) ≤ value := by
    by_cases hone : (digits value).length = 1
    · rw [hone]
      exact Nat.one_le_iff_ne_zero.2 hvalue
    · refine not_lt.1 fun hlt => ?_
      have := (Nat.length_toDigits_le_iff (b := 10) (n := value) (by decide)
        (by omega : 0 < (digits value).length - 1)).2 hlt
      rw [← digits] at this
      omega
  generalize (digits value).length = length at hlength hbelow habove
  constructor
  · rw [show (length : ℤ) + exponent - 1 = (length - 1 : ℕ) + exponent by omega,
      zpow_add₀ (by norm_num), zpow_natCast]
    gcongr
    exact_mod_cast habove
  · rw [zpow_add₀ (by norm_num), zpow_natCast]
    gcongr
    exact_mod_cast hbelow

/-- What is rounded to a number of the format is neither far too great nor far too small. -/
theorem bounds_of_rounds {q : ℚ} (hx : (finite negative m e).Canonical) (hm : m ≠ 0)
    (h : Rounds q m e) : (10 : ℚ) ^ (-330 : ℤ) < q ∧ q < 10 ^ (310 : ℤ) := by
  obtain ⟨hbound, hleast, hgreatest, -⟩ := hx
  have hunit : (0 : ℚ) < 2 ^ e := by positivity
  have hone : (1 : ℚ) ≤ m := by exact_mod_cast Nat.one_le_iff_ne_zero.2 hm
  have hm' : (m : ℚ) + 1 ≤ 2 ^ 53 := by exact_mod_cast hbound
  constructor
  · have hhalf : 1 / 2 ≤ q / 2 ^ e := by linarith [h.sub_margin_le, margin_le m e]
    rw [le_div_iff₀ hunit] at hhalf
    have hpow : (2 : ℚ) ^ leastExponent ≤ 2 ^ e := zpow_le_zpow_right₀ one_le_two hleast
    have hsmall : (10 : ℚ) ^ (-330 : ℤ) < 1 / 2 * 2 ^ leastExponent := by
      have hpowers : 2 * 2 ^ 1074 < 10 ^ 330 := by decide +kernel
      rw [show (-330 : ℤ) = -(330 : ℕ) from rfl, show leastExponent = -(1074 : ℕ) from rfl,
        zpow_neg, zpow_neg, zpow_natCast, zpow_natCast, ← one_div, ← one_div, div_mul_div_comm, one_mul,
        one_div_lt_one_div (by positivity) (by positivity)]
      exact_mod_cast hpowers
    linarith
  · have hhigh : q / 2 ^ e < 2 ^ 53 := by linarith [h.nearest.le_add]
    rw [div_lt_iff₀ hunit] at hhigh
    have hpow : (2 : ℚ) ^ e ≤ 2 ^ greatestExponent := zpow_le_zpow_right₀ one_le_two hgreatest
    have hgreat : (2 : ℚ) ^ 53 * 2 ^ greatestExponent < 10 ^ (310 : ℤ) := by
      have hpowers : 2 ^ 53 * 2 ^ 971 < 10 ^ 310 := by decide +kernel
      rw [show (310 : ℤ) = (310 : ℕ) from rfl, show greatestExponent = (971 : ℕ) from rfl,
        zpow_natCast, zpow_natCast]
      exact_mod_cast hpowers
    linarith

/-- A decimal that is rounded to a number is read as that number. -/
theorem ofDecimal_eq_of_rounds (hx : (finite negative m e).Canonical) (hm : m ≠ 0)
    (h : Rounds (value * 10 ^ exponent) m e) :
    ofDecimal negative value exponent = finite negative m e := by
  have hvalue : value ≠ 0 := by
    rintro rfl
    have := h.pos hm
    simp at this
  obtain ⟨hlow, hhigh⟩ := digits_bounds hvalue exponent
  obtain ⟨hsmall, hgreat⟩ := bounds_of_rounds hx hm h
  have hten : (1 : ℚ) < 10 := by norm_num
  have hnotsmall : -330 < ((digits value).length : ℤ) + exponent :=
    (zpow_lt_zpow_iff_right₀ hten).1 (hsmall.trans hhigh)
  have hnotgreat : ((digits value).length : ℤ) + exponent - 1 < 310 :=
    (zpow_lt_zpow_iff_right₀ hten).1 (hlow.trans_lt hgreat)
  have hdown := powers_snd_pos (by decide : 0 < 10) exponent
  have hratio : ((value * (powers 10 exponent).1 : ℕ) : ℚ) / (powers 10 exponent).2
      = value * 10 ^ exponent := by
    have hne : ((powers 10 exponent).2 : ℚ) ≠ 0 := Nat.cast_ne_zero.2 hdown.ne'
    push_cast
    rw [powers_fst_eq (by decide : 0 < 10)]
    push_cast
    field_simp
  rw [← hratio] at h
  have hround := ofRatio_eq_of_rounds hdown.ne' hx hm h
  rw [ofDecimal, if_neg (by omega), if_neg (by omega)]
  exact hround

theorem digits_shortest_ne_zero (hm : m ≠ 0) (he : leastExponent ≤ e) :
    (shortest m e).digits ≠ 0 := by
  intro hzero
  have hpos := (rounds_shortest hm he).pos hm
  rw [Scaled.value, hzero] at hpos
  simp at hpos

theorem toList_text_zero (negative : Bool) (e : ℤ) :
    (finite negative 0 e).text.toList = signed negative (digits 0) := by
  rw [text, if_pos rfl]
  cases negative <;> rfl

theorem toList_text_finite (negative : Bool) (hm : m ≠ 0) (e : ℤ) :
    (finite negative m e).text.toList = signed negative (shortest m e).text.toList := by
  rw [text, if_neg hm, String.toList_append]
  generalize (shortest m e).text = word
  cases negative <;> rfl

/-- Behind its sign the text of a finite number is a word of digits, or has digits on both sides
of a point. -/
theorem text_finite_cases (negative : Bool) (m : ℕ) (he : leastExponent ≤ e) :
    (∃ n, (finite negative m e).text.toList = signed negative (digits n)) ∨
    ∃ whole fraction,
      (finite negative m e).text.toList = signed negative (whole ++ '.' :: fraction) ∧
      whole ≠ [] ∧ ∀ c ∈ whole, c.isDigit = true := by
  by_cases hm : m = 0
  · exact .inl ⟨0, by rw [hm, toList_text_zero]⟩
  · rw [toList_text_finite negative hm]
    by_cases hexponent : 0 ≤ (shortest m e).exponent
    · exact .inl ⟨_, by rw [Scaled.text_of_whole (digits_shortest_ne_zero hm he) hexponent]⟩
    · obtain ⟨whole, fraction, htext, hne, hdigits, -⟩ :=
        Scaled.text_of_fraction (not_le.1 hexponent)
      rw [List.forall_mem_append] at hdigits
      exact .inr ⟨whole, fraction, by rw [htext], hne, hdigits.1⟩

/-- **The text of a number is read back as the number.** -/
theorem number?_text {x : Binary64} (hx : x.Canonical) : number? x.text.toList = some x := by
  cases x with
  | nan => rfl
  | infinite negative => cases negative <;> rfl
  | finite negative m e =>
    by_cases hm : m = 0
    · subst hm
      obtain ⟨-, -, -, hfull⟩ := hx
      -- Zero has no mantissa of full length, so its exponent is the least.
      have hhalf : ¬ mantissaBound / 2 ≤ 0 := by decide
      rw [toList_text_zero, number?_whole (splitSign_signed_digits negative 0) Nat.toDigits_ne_nil
        fun c hc => isDigit_of_mem_digits hc, ofDigits_digits, ofDecimal, if_pos (.inl rfl),
        hfull.resolve_left hhalf]
    · have hrounds := rounds_shortest hm hx.2.1
      obtain ⟨value, exponent, hread, hvalue⟩ :=
        Scaled.exists_number?_text negative (digits_shortest_ne_zero hm hx.2.1)
      rw [← hvalue] at hrounds
      rw [toList_text_finite negative hm, hread, ofDecimal_eq_of_rounds hx hm hrounds]

end Binary64

end FieldTree.Decimal
