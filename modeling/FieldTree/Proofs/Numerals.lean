/-
# Written numbers are read back

A number is written in decimal digits.  The reader of values tries a truth value, a date, a time
and a number with a fraction first; a word of digits is none of them, and the whole number that
it is has no zero in front.

* `Decimal.ofDigits_digits` : a number is what its digits write;
* `Toml.scalar?_digits` : as a word, the digits of a number are that number;
* `Toml.readScalar_digits` : they are read up to what ends the word.
-/
import FieldTree.Toml.Scalar

namespace FieldTree

/-! ## Decimal digits -/

namespace Decimal

theorem digitValue_digitChar {d : Nat} (h : d < 10) : digitValue d.digitChar = d := by
  have hall : ∀ e < 10, digitValue e.digitChar = e := by decide
  exact hall d h

/-- A number is what its digits write. -/
theorem ofDigits_digits (n : Nat) : ofDigits 10 (digits n) = n := by
  induction n using Nat.strongRecOn with
  | ind n ih =>
    rw [digits, Nat.toDigits_eq_if (by decide)]
    split
    · next hsmall => simp [ofDigits, digitValue_digitChar hsmall]
    · next hlarge =>
      have hlast : n % 10 < 10 := Nat.mod_lt n (by decide)
      rw [ofDigits_append, digitValue_digitChar hlast, ← digits, ih (n / 10) (by omega)]
      omega

theorem isDigit_of_mem_digits {n : Nat} {c : Char} (h : c ∈ digits n) : c.isDigit = true :=
  Nat.isDigit_of_mem_toDigits (by decide) (by decide) h

theorem digits_eq_cons (n : Nat) : ∃ c rest, digits n = c :: rest ∧ c.isDigit = true := by
  obtain ⟨c, rest, heq⟩ := List.exists_cons_of_ne_nil (Nat.toDigits_ne_nil (n := n) (b := 10))
  have hmem : c ∈ digits n := by
    rw [digits, heq]
    exact List.mem_cons_self
  exact ⟨c, rest, heq, isDigit_of_mem_digits hmem⟩

/-- No number but zero starts with a zero. -/
theorem head?_digits_ne {n : Nat} (h : n ≠ 0) : (digits n).head? ≠ some '0' := by
  induction n using Nat.strongRecOn with
  | ind n ih =>
    rw [digits, Nat.toDigits_eq_if (by decide)]
    split
    · next hsmall =>
      have hall : ∀ d < 10, d ≠ 0 → d.digitChar ≠ '0' := by decide
      exact fun heq => hall n hsmall h (Option.some.inj heq)
    · next hlarge =>
      have hhead := ih (n / 10) (by omega) (by omega)
      obtain ⟨c, rest, heq, -⟩ := digits_eq_cons (n / 10)
      rw [heq] at hhead
      rw [← digits, heq]
      exact hhead

end Decimal

namespace Toml

/-! ## Words of digits -/

section Digits

variable {word : List Char} (hword : ∀ c ∈ word, c.isDigit = true)
include hword

/-- Nothing but a digit stands in a word of digits. -/
theorem not_mem_digits {c : Char} (hc : c.isDigit = false) : c ∉ word :=
  fun hmem => Bool.eq_false_iff.1 hc (hword c hmem)

theorem ne_cons_digits {c : Char} (hc : c.isDigit = false) (rest : List Char) :
    word ≠ c :: rest := by
  rintro rfl
  exact not_mem_digits hword hc List.mem_cons_self

theorem ungroup_digits (hne : word ≠ []) : ungroup Char.isDigit word = some word := by
  fun_induction ungroup Char.isDigit word with
  | case1 => exact absurd rfl hne
  | case2 c hc => rfl
  | case3 c hc => exact absurd (hword c List.mem_cons_self) hc
  | case4 c rest _ _ => exact absurd (hword '_' (by simp)) (by decide)
  | case5 c rest hc => exact absurd (hword c List.mem_cons_self) hc
  | case6 c d rest _ hc ih =>
    rw [ih (fun e he => hword e (List.mem_cons_of_mem c he)) (List.cons_ne_nil d rest)]
    rfl
  | case7 c d rest _ hc => exact absurd (hword c List.mem_cons_self) hc

/-- Behind digits nothing but a digit is found. -/
theorem after?_digits {c : Char} (hc : c.isDigit = false) (n : Nat) :
    after? c (word.drop n) = none := by
  cases hdrop : word.drop n with
  | nil => rfl
  | cons d rest =>
    refine if_neg ?_
    rintro rfl
    exact not_mem_digits hword hc (List.mem_of_mem_drop (hdrop ▸ List.mem_cons_self))

/-- A word of digits is no date. -/
theorem date?_digits : date? word = none := by
  simp only [date?, Option.bind_eq_bind, Option.bind_eq_none_iff]
  intro year hyear
  rw [fixedDigits?] at hyear
  split at hyear
  · cases hyear
    rw [after?_digits hword (by decide)]
    exact nofun
  · cases hyear

/-- A word of digits is no time of day. -/
theorem time?_digits : time? word = none := by
  simp only [time?, Option.bind_eq_bind, Option.bind_eq_none_iff]
  intro hour hhour
  rw [fixedDigits?] at hhour
  split at hhour
  · cases hhour
    rw [after?_digits hword (by decide)]
    exact nofun
  · cases hhour

theorem dateTime?_digits : dateTime? word = none := by
  rw [dateTime?, date?_digits hword, time?_digits hword]

theorem boolean?_digits : boolean? word = none := by
  rw [boolean?, if_neg (ne_cons_digits hword (by decide) _),
    if_neg (ne_cons_digits hword (by decide) _)]

theorem sign_digits : sign word = (false, word) := by
  rw [sign.eq_def]
  split
  · exact absurd rfl (ne_cons_digits hword (by decide) _)
  · exact absurd rfl (ne_cons_digits hword (by decide) _)
  · rfl

/-- A word of digits has neither a fraction nor an exponent. -/
theorem float?_digits : float? word = none := by
  have hwhole : ∀ c ∈ word, (c != '.' && !startsExponent c) = true := by
    intro c hc
    have hne : ∀ d, d.isDigit = false → c ≠ d := by
      rintro d hd rfl
      exact not_mem_digits hword hd hc
    simp [startsExponent, hne '.' (by decide), hne 'e' (by decide), hne 'E' (by decide)]
  have hrest : (word ++ []).dropWhile (fun c => c != '.' && !startsExponent c) = [] :=
    List.dropWhile_append_of_pos hwhole
  rw [List.append_nil] at hrest
  rw [float?, sign_digits hword]
  simp only [if_neg (ne_cons_digits hword (by decide : 'i'.isDigit = false) _),
    if_neg (ne_cons_digits hword (by decide : 'n'.isDigit = false) _), hrest]

/-- Digits without a zero in front are a whole number. -/
theorem integer?_digits (hne : word ≠ []) (hzero : word.length = 1 ∨ word.head? ≠ some '0')
    (hrange : Decimal.ofDigits 10 word ≤ greatestInteger) :
    integer? word = some (Decimal.ofDigits 10 word : Int) := by
  have hwhole : wholeDigits? word = some word := by
    have hfilter : (word.length == 1 || word.head? != some '0') = true := by simpa using hzero
    rw [wholeDigits?, ungroup_digits hword hne, Option.filter_some, if_pos hfilter]
  have hin : inRange? (Decimal.ofDigits 10 word : Int) = some (Decimal.ofDigits 10 word : Int) := by
    have : leastInteger ≤ (Decimal.ofDigits 10 word : Int) := by
      rw [leastInteger]
      omega
    exact if_pos ⟨this, hrange⟩
  rw [integer?.eq_def]
  split
  · exact absurd (by simp) (not_mem_digits hword (by decide : 'x'.isDigit = false))
  · exact absurd (by simp) (not_mem_digits hword (by decide : 'o'.isDigit = false))
  · exact absurd (by simp) (not_mem_digits hword (by decide : 'b'.isDigit = false))
  · rw [sign_digits hword]
    simp only [hwhole, Option.bind_some]
    exact hin

end Digits

/-! ## Whole numbers -/

/-- **As a word, the digits of a number in range are that number.** -/
theorem scalar?_digits {n : Nat} (h : (n : Int) ≤ greatestInteger) :
    scalar? (Decimal.digits n) = some (.integer n) := by
  have hword : ∀ c ∈ Decimal.digits n, c.isDigit = true :=
    fun c hc => Decimal.isDigit_of_mem_digits hc
  have hzero : (Decimal.digits n).length = 1 ∨ (Decimal.digits n).head? ≠ some '0' := by
    by_cases hn : n = 0
    · exact .inl (by rw [hn]; rfl)
    · exact .inr (Decimal.head?_digits_ne hn)
  have hinteger : integer? (Decimal.digits n) = some (n : Int) := by
    have hvalue := integer?_digits hword Nat.toDigits_ne_nil hzero
    rw [Decimal.ofDigits_digits] at hvalue
    exact hvalue h
  rw [scalar?, boolean?_digits hword, dateTime?_digits hword, float?_digits hword, hinteger]
  rfl

/-- A word is read to its end if no time of day stands behind it. -/
theorem readScalar_of {s word rest : List Char} {v : Value}
    (hword : s.takeWhile isWordChar = word) (hrest : s.dropWhile isWordChar = rest)
    (hne : word ≠ []) (htime : readTimeAfter word rest = none) (hvalue : scalar? word = some v) :
    (readScalar s).map Taken.pair = some (v, rest) := by
  subst hword hrest
  rw [readScalar, dif_neg hne]
  simp only [htime, hvalue]
  rfl

/-- **The digits of a number in range are read as that number**, up to what ends the word. -/
theorem readScalar_digits {n : Nat} {tail : List Char} (h : (n : Int) ≤ greatestInteger)
    (htail : ∀ c ∈ tail.head?, isWordChar c = false) :
    (readScalar (Decimal.digits n ++ tail)).map Taken.pair = some (.integer n, tail) := by
  have hword : ∀ c ∈ Decimal.digits n, isWordChar c = true := by
    intro c hc
    simp [isWordChar, Char.isAlphanum, Decimal.isDigit_of_mem_digits hc]
  have hstop : tail.takeWhile isWordChar = [] ∧ tail.dropWhile isWordChar = tail := by
    cases tail with
    | nil => exact ⟨rfl, rfl⟩
    | cons c rest =>
      have hc : ¬ isWordChar c = true := Bool.eq_false_iff.1 (htail c rfl)
      exact ⟨List.takeWhile_cons_of_neg hc, List.dropWhile_cons_of_neg hc⟩
  refine readScalar_of ?_ ?_ Nat.toDigits_ne_nil ?_ (scalar?_digits h)
  · rw [List.takeWhile_append_of_pos hword, hstop.1, List.append_nil]
    rfl
  · rw [List.dropWhile_append_of_pos hword, hstop.2]
  · have hdate := date?_digits fun c hc => Decimal.isDigit_of_mem_digits (n := n) hc
    rw [← Decimal.digits, readTimeAfter, hdate]

end Toml

end FieldTree
