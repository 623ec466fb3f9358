/-
# Values of variables as texts

A variable for the key field is taken for a truth value or a number where it can be one, and the
text of that is what counts.  So a value is kept as it is exactly if it is no truth value in any
case and no number, or if it is written as truth values and numbers are written: `007` and `1.50`
become `7` and `1.5`, while names are kept, but for a few words.

* `Decimal.number?_eq_none` : words that write no number;
* `Decimal.toString_of_integer?_text` : a number that can be read as a whole number of 64 bits is
  written as one;
* `Environment.overlay_of_only` : what a single variable for the key field states;
* `Environment.taken_eq_self_iff` : which values are kept as they are;
* `Settings.load_override` : the value that a variable puts in force.
-/
import FieldTree.Proofs.Layers
import FieldTree.Proofs.Naming
import FieldTree.Proofs.Shortest

namespace FieldTree

/-! ## Blanks write no number -/

namespace Text

variable {c : Char}

theorem toLower_of_not_ascii (hc : ¬ c.toNat < 128) : c.toLower = c := by
  refine dif_neg fun hupper => hc ?_
  have hle : c.val.toNat ≤ 'Z'.val.toNat := UInt32.le_iff_toNat_le.1 hupper.2
  exact Nat.lt_of_le_of_lt hle (by decide)

/-- No number and no word for one starts with a blank. -/
theorem not_startsNumber_of_isBlank (h : isBlank c = true) :
    c.isDigit = false ∧ c ∉ ['-', '+', '.'] ∧ c.toLower ∉ ['i', 'n'] := by
  by_cases hascii : c.toNat < 128
  · exact forall_ascii (motive := fun c => isBlank c = true →
      c.isDigit = false ∧ c ∉ ['-', '+', '.'] ∧ c.toLower ∉ ['i', 'n']) (by decide +kernel) hascii h
  · rw [toLower_of_not_ascii hascii]
    have hnot : ∀ d : Char, d.toNat < 128 → c ≠ d := by
      rintro d hd rfl
      exact hascii hd
    refine ⟨Bool.eq_false_iff.2 fun hdigit => hascii ?_, ?_, ?_⟩
    · exact TypeExpr.toNat_lt_of_continuesName (by simp [TypeExpr.continuesName, hdigit])
    · simp [hnot '-' (by decide), hnot '+' (by decide), hnot '.' (by decide)]
    · simp [hnot 'i' (by decide), hnot 'n' (by decide)]

end Text

namespace Decimal

variable {word rest : List Char} {c : Char} {x : Binary64} {n : ℤ}

/-- A word that starts neither as a number nor is a word for one writes none. -/
theorem number?_eq_none (hdigit : c.isDigit = false) (hsign : c ∉ ['-', '+', '.'])
    (hword : (c :: rest).map Char.toLower ∉ ["inf".toList, "infinity".toList, "nan".toList]) :
    number? (c :: rest) = none := by
  simp only [List.mem_cons, List.not_mem_nil, or_false, not_or] at hsign hword
  have hsplit : splitSign (c :: rest) = (false, c :: rest) := by
    rw [splitSign.eq_def]
    split
    · next heq => exact absurd (List.cons.inj heq).1 hsign.1
    · next heq => exact absurd (List.cons.inj heq).1 hsign.2.1
    · rfl
  have hnot : ¬ c.isDigit = true := Bool.eq_false_iff.1 hdigit
  have htake : (c :: rest).takeWhile Char.isDigit = [] := List.takeWhile_cons_of_neg hnot
  have hdrop : (c :: rest).dropWhile Char.isDigit = c :: rest := List.dropWhile_cons_of_neg hnot
  simp only [number?, hsplit, htake, hdrop, if_neg (not_or.2 ⟨hword.1, hword.2.1⟩),
    if_neg hword.2.2]
  split
  · next heq => exact absurd (List.cons.inj heq).1 hsign.2.2
  · exact if_pos rfl

/-- What writes a number is not blank. -/
theorem not_allBlank_of_number? {s : String} (h : number? s.toList = some x) :
    Text.allBlank s = false := by
  rw [Text.allBlank, Bool.eq_false_iff]
  intro hblank
  cases hs : s.toList with
  | nil =>
    rw [hs] at h
    cases h
  | cons c rest =>
    rw [hs] at h hblank
    obtain ⟨hdigit, hsign, hlower⟩ :=
      Text.not_startsNumber_of_isBlank (List.all_eq_true.1 hblank c List.mem_cons_self)
    have hword : (c :: rest).map Char.toLower
        ∉ ["inf".toList, "infinity".toList, "nan".toList] := by
      intro hmem
      apply hlower
      simp only [List.mem_cons, List.not_mem_nil, or_false] at hmem ⊢
      rcases hmem with heq | heq | heq
      · exact .inl (List.cons.inj heq).1
      · exact .inl (List.cons.inj heq).1
      · exact .inr (List.cons.inj heq).1
    rw [number?_eq_none hdigit hsign hword] at h
    cases h

/-! ## Whole numbers -/

/-- What writes a whole number writes a number. -/
theorem number?_isSome_of_integer? (h : integer? word = some n) : (number? word).isSome = true := by
  cases hsign : splitSign word with
  | mk negative rest =>
    simp only [integer?, hsign] at h
    obtain ⟨_, hdigits, -⟩ := Option.map_eq_some_iff.1 h
    rw [digits?] at hdigits
    split at hdigits
    · next hword =>
      rw [number?_whole hsign hword.1 (List.all_eq_true.1 hword.2)]
      rfl
    · cases hdigits

/-- A whole number is written with its sign and its digits. -/
theorem toList_toString (n : ℤ) : (toString n).toList = signed (n < 0) (digits n.natAbs) := by
  cases n with
  | ofNat n =>
    have hsign : ¬ Int.ofNat n < 0 := not_lt.2 (Int.natCast_nonneg n)
    rw [decide_eq_false hsign]
    exact String.toList_ofList
  | negSucc n =>
    rw [decide_eq_true (Int.negSucc_lt_zero n)]
    show ("-" ++ String.ofList (digits (n + 1))).toList = '-' :: digits (n + 1)
    rw [String.toList_append]
    exact congrArg ('-' :: ·) String.toList_ofList

theorem integer?_signed_digits (negative : Bool) (n : ℕ) :
    integer? (signed negative (digits n)) = some (if negative then -(n : ℤ) else n) := by
  have hdigits : digits n ≠ [] ∧ (digits n).all Char.isDigit = true :=
    ⟨Nat.toDigits_ne_nil, List.all_eq_true.2 fun c hc => isDigit_of_mem_digits hc⟩
  simp only [integer?, splitSign_signed_digits, digits?, if_pos hdigits, ofDigits_digits,
    Option.map_some]

/-- A whole number is read back as itself. -/
theorem integer?_toString (n : ℤ) : integer? (toString n).toList = some n := by
  rw [toList_toString, integer?_signed_digits]
  congr 1
  split
  · next hneg =>
    rw [decide_eq_true_iff] at hneg
    omega
  · next hneg =>
    rw [decide_eq_true_iff] at hneg
    omega

/-- A word with a point in it writes no whole number. -/
theorem integer?_eq_none_of_point {negative : Bool} (hsign : splitSign word = (negative, rest))
    (hpoint : '.' ∈ rest) : integer? word = none := by
  have hdigits : ¬ (rest ≠ [] ∧ rest.all Char.isDigit = true) := by
    rintro ⟨-, hall⟩
    exact absurd (List.all_eq_true.1 hall '.' hpoint) (by decide)
  simp only [integer?, hsign, digits?, if_neg hdigits, Option.map_none]

/-- **A number that can be read as a whole number is written as one**, but for the negative zero. -/
theorem toString_of_integer?_text (hx : x.Canonical) (hzero : x.text ≠ "-0")
    (h : integer? x.text.toList = some n) : toString n = x.text := by
  cases x with
  | nan =>
    have hnone : integer? Binary64.nan.text.toList = none := by decide
    rw [hnone] at h
    cases h
  | infinite negative =>
    have hnone : integer? (Binary64.infinite negative).text.toList = none := by
      cases negative <;> decide
    rw [hnone] at h
    cases h
  | finite negative m e =>
    rcases Binary64.text_finite_cases negative m hx.2.1 with
      ⟨k, htext⟩ | ⟨whole, fraction, htext, hne, hwhole⟩
    · rw [htext, integer?_signed_digits] at h
      cases h
      have hsign : decide ((if negative = true then -(k : ℤ) else k) < 0) = negative := by
        cases negative with
        | false => exact decide_eq_false (not_lt.2 (Int.natCast_nonneg k))
        | true =>
          have hk : k ≠ 0 := by
            rintro rfl
            exact hzero (String.toList_inj.1 htext)
          exact decide_eq_true (show -(k : ℤ) < 0 by omega)
      have habs : (if negative = true then -(k : ℤ) else k).natAbs = k := by
        cases negative with
        | false => exact Int.natAbs_natCast k
        | true => exact (Int.natAbs_neg k).trans (Int.natAbs_natCast k)
      rw [← String.toList_inj, toList_toString, hsign, habs, htext]
    · rw [htext, integer?_eq_none_of_point (splitSign_signed_point negative hne hwhole)
        (by simp)] at h
      cases h

/-- Behind its sign the text of a finite number starts with a digit. -/
theorem exists_text_eq_signed (negative : Bool) (m : ℕ) {e : ℤ}
    (he : Binary64.leastExponent ≤ e) : ∃ c rest, c.isDigit = true ∧
      (Binary64.finite negative m e).text.toList = signed negative (c :: rest) := by
  rcases Binary64.text_finite_cases negative m he with
    ⟨n, htext⟩ | ⟨whole, fraction, htext, hne, hwhole⟩
  · obtain ⟨c, rest, hcons, hc⟩ := digits_eq_cons n
    exact ⟨c, rest, hc, by rw [htext, hcons]⟩
  · obtain ⟨c, rest, rfl⟩ := List.exists_cons_of_ne_nil hne
    exact ⟨c, rest ++ '.' :: fraction, hwhole c List.mem_cons_self, htext⟩

end Decimal

namespace Environment

open Decimal (signed)

variable {env before after : Environment} {v name key : String} {n : ℤ} {x : Decimal.Binary64}

/-! ## What a value is taken for -/

/-- The text that a value is taken for where a text is wanted. -/
def taken (v : String) : String := ((Reading.ofText false v).asText?).getD v

/-- The values that are written as what they are taken for: truth values, whole numbers of 64 bits,
numbers, and what is none of these. -/
inductive Verbatim : String → Prop where
  | truth (b : Bool) : Verbatim (toString b)
  | integer {n : ℤ} : -0x8000000000000000 ≤ n → n < 0x8000000000000000 → Verbatim (toString n)
  | number {x : Decimal.Binary64} : x.Canonical → x.text ≠ "-0" → Verbatim x.text
  | word {v : String} : Text.lower v ∉ ["true", "false"] → Decimal.number? v.toList = none →
      Verbatim v

theorem boolean?_eq_none_iff : boolean? v = none ↔ v ∉ ["true", "false"] := by
  rw [boolean?]
  split
  · next heq => simp [heq]
  · next hne =>
    split
    · next heq => simp [heq]
    · next hne' => simp [hne, hne']

theorem integer?_eq_some_iff : integer? v.toList = some n ↔
    Decimal.integer? v.toList = some n ∧ -0x8000000000000000 ≤ n ∧ n < 0x8000000000000000 := by
  rw [integer?, Option.filter_eq_some_iff]
  simp

theorem taken_of_boolean {b : Bool} (h : boolean? (Text.lower v) = some b) :
    taken v = toString b := by
  simp only [taken, Reading.ofText, h]
  rfl

theorem taken_of_integer (hb : boolean? (Text.lower v) = none) (h : integer? v.toList = some n) :
    taken v = toString n := by
  simp only [taken, Reading.ofText, hb, h]
  rfl

theorem taken_of_number (hb : boolean? (Text.lower v) = none) (hn : integer? v.toList = none)
    (h : Decimal.number? v.toList = some x) : taken v = x.text := by
  simp only [taken, Reading.ofText, hb, hn, h]
  rfl

theorem taken_of_word (hb : boolean? (Text.lower v) = none)
    (h : Decimal.number? v.toList = none) : taken v = v := by
  have hn : integer? v.toList = none := by
    cases hinteger : integer? v.toList with
    | none => rfl
    | some n =>
      have := Decimal.number?_isSome_of_integer? (integer?_eq_some_iff.1 hinteger).1
      rw [h] at this
      cases this
  simp only [taken, Reading.ofText, hb, hn, h]
  rfl

theorem asText?_ofText (v : String) : (Reading.ofText false v).asText? = some (taken v) := by
  rw [taken, Reading.ofText]
  split
  · rfl
  · split
    · rfl
    · split
      · rfl
      · rfl

/-- No truth value starts as a number does. -/
theorem boolean?_lower_of_signed {negative : Bool} {c : Char} {rest : List Char}
    (hv : v.toList = signed negative (c :: rest)) (hc : c.isDigit = true) :
    boolean? (Text.lower v) = none := by
  have hhead : ∃ d rest', v.toList = d :: rest' ∧ d.toNat < 128 ∧ d.toLower ∉ ['t', 'f'] := by
    rw [hv]
    cases negative with
    | true => exact ⟨'-', c :: rest, rfl, by decide, by decide⟩
    | false =>
      have hascii : c.toNat < 128 :=
        TypeExpr.toNat_lt_of_continuesName (by simp [TypeExpr.continuesName, hc])
      refine ⟨c, rest, rfl, hascii, ?_⟩
      rw [Decimal.toLower_of_isDigit hc]
      simp [Decimal.ne_of_isDigit hc (by decide : 't'.isDigit = false),
        Decimal.ne_of_isDigit hc (by decide : 'f'.isDigit = false)]
  obtain ⟨d, rest', hcons, hascii, hd⟩ := hhead
  have hsigma : d ≠ 'Σ' := by
    rintro rfl
    exact absurd hascii (by decide)
  have hlower : (Text.lower v).toList = d.toLower :: Text.lowerAfter [d] rest' := by
    rw [Text.lower, String.toList_ofList, hcons, Text.lowerChars, Text.lowerAfter, if_neg hsigma,
      Text.lowerChar_of_ascii hascii]
    rfl
  rw [boolean?_eq_none_iff]
  intro hmem
  simp only [List.mem_cons, List.not_mem_nil, or_false, not_or] at hmem hd
  rcases hmem with heq | heq
  · rw [heq] at hlower
    exact hd.1 (List.cons.inj hlower).1.symm
  · rw [heq] at hlower
    exact hd.2 (List.cons.inj hlower).1.symm

theorem boolean?_lower_toString (n : ℤ) : boolean? (Text.lower (toString n)) = none := by
  obtain ⟨c, rest, hcons, hc⟩ := Decimal.digits_eq_cons n.natAbs
  have htext := Decimal.toList_toString n
  rw [hcons] at htext
  exact boolean?_lower_of_signed htext hc

theorem boolean?_lower_text (hx : x.Canonical) : boolean? (Text.lower x.text) = none := by
  cases x with
  | nan => decide +kernel
  | infinite negative => cases negative <;> decide +kernel
  | finite negative m e =>
    obtain ⟨c, rest, hc, htext⟩ := Decimal.exists_text_eq_signed negative m hx.2.1
    exact boolean?_lower_of_signed htext hc

/-- What is written as it is taken is taken for itself. -/
theorem Verbatim.taken_eq (h : Verbatim v) : taken v = v := by
  cases h with
  | truth b => cases b <;> decide +kernel
  | @integer n hlow hhigh =>
    exact taken_of_integer (boolean?_lower_toString n)
      (integer?_eq_some_iff.2 ⟨Decimal.integer?_toString n, hlow, hhigh⟩)
  | @number x hx hzero =>
    cases hinteger : integer? x.text.toList with
    | none =>
      exact taken_of_number (boolean?_lower_text hx) hinteger (Decimal.Binary64.number?_text hx)
    | some n =>
      rw [taken_of_integer (boolean?_lower_text hx) hinteger]
      exact Decimal.toString_of_integer?_text hx hzero (integer?_eq_some_iff.1 hinteger).1
  | word hlower hnumber => exact taken_of_word (boolean?_eq_none_iff.2 hlower) hnumber

/-- A value is taken for a truth value, a whole number, a number, or itself. -/
theorem taken_cases (v : String) :
    (∃ b : Bool, taken v = toString b) ∨
    (∃ n : ℤ, -0x8000000000000000 ≤ n ∧ n < 0x8000000000000000 ∧ taken v = toString n) ∨
    (∃ x : Decimal.Binary64, x.Canonical ∧ taken v = x.text) ∨
    (Text.lower v ∉ ["true", "false"] ∧ Decimal.number? v.toList = none ∧ taken v = v) := by
  cases hb : boolean? (Text.lower v) with
  | some b => exact .inl ⟨b, taken_of_boolean hb⟩
  | none =>
    cases hinteger : integer? v.toList with
    | some n =>
      obtain ⟨-, hlow, hhigh⟩ := integer?_eq_some_iff.1 hinteger
      exact .inr (.inl ⟨n, hlow, hhigh, taken_of_integer hb hinteger⟩)
    | none =>
      cases hnumber : Decimal.number? v.toList with
      | some x =>
        have hx := Decimal.Binary64.canonical_number? hnumber
        exact .inr (.inr (.inl ⟨x, hx, taken_of_number hb hinteger hnumber⟩))
      | none =>
        exact .inr (.inr (.inr ⟨boolean?_eq_none_iff.1 hb, rfl, taken_of_word hb hnumber⟩))

/-- What a value is taken for is written as it is taken, but for the negative zero. -/
theorem verbatim_taken (h : taken v ≠ "-0") : Verbatim (taken v) := by
  rcases taken_cases v with ⟨b, hb⟩ | ⟨n, hlow, hhigh, hn⟩ | ⟨x, hx, htext⟩ | ⟨hlower, hnumber, hv⟩
  · rw [hb]
    exact .truth b
  · rw [hn]
    exact .integer hlow hhigh
  · rw [htext] at h ⊢
    exact .number hx h
  · rw [hv]
    exact .word hlower hnumber

/-- **The values that are kept as they are.** -/
theorem taken_eq_self_iff : taken v = v ↔ Verbatim v := by
  constructor
  · intro h
    have hzero : v ≠ "-0" := by
      rintro rfl
      exact absurd h (by decide +kernel)
    rw [← h] at hzero ⊢
    exact verbatim_taken hzero
  · exact Verbatim.taken_eq

/-- A value that is not blank is not taken for a blank. -/
theorem not_allBlank_taken (h : Text.allBlank v = false) : Text.allBlank (taken v) = false := by
  rcases taken_cases v with ⟨b, hb⟩ | ⟨n, -, -, hn⟩ | ⟨x, hx, htext⟩ | ⟨-, -, hv⟩
  · rw [hb]
    cases b <;> decide
  · rw [hn]
    have hnumber := Decimal.number?_isSome_of_integer? (Decimal.integer?_toString n)
    obtain ⟨x, hx⟩ := Option.isSome_iff_exists.1 hnumber
    exact Decimal.not_allBlank_of_number? hx
  · rw [htext]
    exact Decimal.not_allBlank_of_number? (Decimal.Binary64.number?_text hx)
  · rw [hv]
    exact h

/-- A name is kept as it is, unless it is a word for a truth value or a number. -/
theorem verbatim_of_isName (hname : TypeExpr.IsName v)
    (hword : Text.lower v ∉ ["true", "false", "inf", "infinity", "nan"]) : Verbatim v := by
  have hascii : ∀ c ∈ v.toList, c.toNat < 128 :=
    fun c hc => TypeExpr.toNat_lt_of_continuesName (hname.all c hc)
  obtain ⟨c, rest, hcons, hc, -⟩ := hname
  have hlower : Text.lower v = String.ofList (v.toList.map Char.toLower) := by
    rw [Text.lower, Text.lowerChars, Text.lowerAfter_of_ascii hascii]
  have hstart : c.isDigit = false ∧ c ∉ ['-', '+', '.'] :=
    Text.forall_ascii (motive := fun c => TypeExpr.startsName c = true →
      c.isDigit = false ∧ c ∉ ['-', '+', '.']) (by decide +kernel)
      (hascii c (hcons ▸ List.mem_cons_self)) hc
  refine .word (fun hmem => hword ?_) ?_
  · simp only [List.mem_cons, List.not_mem_nil, or_false] at hmem ⊢
    tauto
  · rw [hcons]
    refine Decimal.number?_eq_none hstart.1 hstart.2 fun hmem => hword ?_
    rw [hlower, hcons]
    simp only [List.mem_cons, List.not_mem_nil, or_false] at hmem ⊢
    rcases hmem with heq | heq | heq
    · rw [heq]
      decide
    · rw [heq]
      decide
    · rw [heq]
      decide

/-! ## A single variable -/

/-- One variable among others that state nothing is all that is stated. -/
theorem stated_of_only (hothers : Silent (before ++ after)) {place : Place}
    (hplace : place? name = some place) (key : String) :
    stated (before ++ (name, v) :: after) key
      = if place.key = key then [(place.steps, v)] else [] := by
  have hbefore : before.Silent := fun entry hentry => hothers entry (List.mem_append_left _ hentry)
  have hafter : after.Silent := fun entry hentry => hothers entry (List.mem_append_right _ hentry)
  have hsplit : stated (before ++ (name, v) :: after) key
      = stated before key ++ (stated [(name, v)] key ++ stated after key) := by
    rw [← List.singleton_append (l := after), stated, List.filterMap_append, List.filterMap_append]
    rfl
  rw [hsplit, stated_eq_nil hbefore, stated_eq_nil hafter, List.nil_append, List.append_nil, stated]
  by_cases hkey : place.key = key
  · simp only [List.filterMap_cons, hplace, List.filterMap_nil, if_pos hkey]
  · simp only [List.filterMap_cons, hplace, List.filterMap_nil, if_neg hkey]

/-- **A single variable for the key field states the text that its value is taken for.** -/
theorem overlay_of_only (hothers : Silent (before ++ after))
    (hname : Text.lower name = "typetree_id_field") :
    overlay (before ++ (name, v) :: after) = ⟨none, none, some (taken v)⟩ := by
  have hplace : place? name = some ⟨"id_field", []⟩ := by
    rw [place?, hname]
    decide +kernel
  have hstated := stated_of_only (v := v) hothers hplace
  have hsetting : setting? (before ++ (name, v) :: after) "id_field" = some v := by
    rw [setting?, hstated]
    rfl
  have hdepth : setting? (before ++ (name, v) :: after) "max_depth" = none := by
    rw [setting?, hstated]
    rfl
  have hhandlers : setting? (before ++ (name, v) :: after) "handlers" = none := by
    rw [setting?, hstated]
    rfl
  have hlist : list? (before ++ (name, v) :: after) "handlers" = none := by
    rw [list?, hhandlers, gathered, hstated]
    rfl
  rw [overlay, hlist, hdepth, hsetting, Option.bind_some, asText?_ofText]
  rfl

end Environment

namespace Settings

/-- **The value that a variable puts in force.**  With one variable, for the key field, on top of
the files, the settings of the files are loaded with the text that its value is taken for in place
of the key field.  That is the value itself exactly if it is written as truth values, whole numbers
of 64 bits and numbers are written, or is none of these; what a value is taken for is always
written so, but for the negative zero.  Names are, but for five words in any case. -/
theorem load_override (files : Files) (globalPath localPath : Option String)
    {before after : Environment} {name v : String} {global given : Overlay}
    (hglobal : Overlay.OfGlobal files globalPath global)
    (hgiven : Overlay.OfGiven files localPath given)
    (hothers : Environment.Silent (before ++ after))
    (hname : Text.lower name = "typetree_id_field") (hv : Text.allBlank v = false)
    (hdepth : 1 ≤ (ofLayers [global, given]).maxDepth) :
    load files globalPath localPath (before ++ (name, v) :: after)
      = .ok { ofLayers [global, given] with idField := Environment.taken v } ∧
    (Environment.taken v = v ↔ Environment.Verbatim v) ∧
    (Environment.taken v ≠ "-0" → Environment.Verbatim (Environment.taken v)) ∧
    (TypeExpr.IsName v → Text.lower v ∉ ["true", "false", "inf", "infinity", "nan"] →
      Environment.Verbatim v) := by
  have henv := Environment.overlay_of_only (v := v) hothers hname
  refine ⟨load_eq_ok_iff.2 ⟨global, given, hglobal, hgiven, ?_, ?_, hdepth⟩,
    Environment.taken_eq_self_iff, Environment.verbatim_taken, Environment.verbatim_of_isName⟩
  · rw [henv]
    rfl
  · exact Environment.not_allBlank_taken hv

/-- A thousand is written as a whole number, in any case of the variable's name; names are kept. -/
theorem load_override_thousand :
    load (fun _ => .absent Entry.notFound) none none
        ([("HOME", "/home")] ++ ("TypeTree_Id_Field", "1e3") :: [])
      = .ok ⟨Handler.defaultNames, 32, "1000"⟩ ∧
    ¬ Environment.Verbatim "1e3" ∧ Environment.Verbatim "1000" ∧ Environment.Verbatim "key_1" := by
  have hothers : Environment.Silent ([("HOME", "/home")] ++ []) := by
    intro entry hentry
    rw [List.append_nil, List.mem_singleton] at hentry
    rw [hentry]
    decide +kernel
  have htaken : Environment.taken "1e3" = "1000" := by decide +kernel
  have hname : Text.lower "TypeTree_Id_Field" = "typetree_id_field" := by decide +kernel
  obtain ⟨hload, hiff, hverbatim, -⟩ := load_override (fun _ => .absent Entry.notFound) none none
    (v := "1e3") .nowhere .nothing hothers hname (by decide) (by decide)
  obtain ⟨-, -, -, hkey⟩ := load_override (fun _ => .absent Entry.notFound) none none
    (v := "key_1") .nowhere .nothing hothers hname (by decide) (by decide)
  rw [htaken] at hload hiff hverbatim
  refine ⟨hload, fun h => absurd (hiff.2 h) (by decide), hverbatim (by decide), ?_⟩
  exact hkey ⟨'k', ['e', 'y', '_', '1'], rfl, by decide, by decide⟩ (by decide +kernel)

/-- The zeros in front of a value get lost. -/
theorem not_forall_load_override : ¬ ∀ v : String, Text.allBlank v = false →
    load (fun _ => .absent Entry.notFound) none none [("TYPETREE_ID_FIELD", v)]
      = .ok { defaults with idField := v } := by
  intro h
  have hload := h "007" (by decide)
  have hseven : load (fun _ => .absent Entry.notFound) none none [("TYPETREE_ID_FIELD", "007")]
      = .ok { defaults with idField := "7" } := eq_ok_of_toOption (by decide +kernel)
  rw [hseven] at hload
  exact absurd (congrArg Settings.idField (Except.ok.inj hload)) (by decide)

end Settings

end FieldTree
