/-
# Names of handlers

A handler is looked up under a name without the white space around it, and in small letters.
`Handler.Spells` says so of two texts, with no word about how the one is made from the other: the
white space characters and the letters of the alphabet are listed one by one, and what is kept
starts and ends with a character that is not white space.

* `Text.isBlank_iff` : the ranges of codes hold the white space characters and no others;
* `Text.trimChars_eq_iff` : trimming leaves what stands between white space;
* `Text.lowers_iff` : letters are put into lower case by the alphabet;
* `Handler.normalName_eq_iff` : every name spells one text, the one that it is looked up under;
* `Handler.named_eq_error_iff` : a name is unknown if it spells no built-in one.
-/
import FieldTree.Handler
import FieldTree.Proofs.Naming
import Mathlib.Data.List.DropRight

namespace FieldTree

namespace Text

variable {c d : Char} {s middle : List Char}

/-! ## White space -/

/-- The white space characters, one by one. -/
def blanks : List Char :=
  ['\t', '\n', '\x0b', '\x0c', '\r', ' ', '\u0085', '\u00a0', '\u1680', '\u2000', '\u2001',
   '\u2002', '\u2003', '\u2004', '\u2005', '\u2006', '\u2007', '\u2008', '\u2009', '\u200a',
   '\u2028', '\u2029', '\u202f', '\u205f', '\u3000']

/-- **The ranges of codes hold the white space characters and no others.** -/
theorem isBlank_iff : isBlank c = true ↔ c ∈ blanks := by
  have hcodes : blanks.map Char.toNat = [0x9, 0xa, 0xb, 0xc, 0xd, 0x20, 0x85, 0xa0, 0x1680, 0x2000,
    0x2001, 0x2002, 0x2003, 0x2004, 0x2005, 0x2006, 0x2007, 0x2008, 0x2009, 0x200a, 0x2028, 0x2029,
    0x202f, 0x205f, 0x3000] := rfl
  rw [← List.mem_map_of_injective (f := Char.toNat) (fun _ _ h => Char.toNat_inj.1 h), hcodes,
    isBlank, Ranges.contains_iff]
  simp only [whiteSpace, List.mem_cons, List.not_mem_nil, or_false, exists_eq_or_imp,
    exists_eq_left]
  omega

/-- Whether some characters are what stands between the white space at both ends of others. -/
structure Strips (s middle : List Char) : Prop where
  parts : ∃ before after, s = before ++ middle ++ after ∧ (∀ c ∈ before, c ∈ blanks) ∧
    ∀ c ∈ after, c ∈ blanks
  head : ∀ c ∈ middle.head?, c ∉ blanks
  last : ∀ c ∈ middle.getLast?, c ∉ blanks

theorem strips_trimChars (s : List Char) : Strips s (trimChars s) := by
  have htrim : trimChars s = (s.dropWhile isBlank).rdropWhile isBlank := rfl
  rw [htrim]
  refine ⟨⟨s.takeWhile isBlank, (s.dropWhile isBlank).rtakeWhile isBlank, ?_, ?_, ?_⟩, ?_, ?_⟩
  · rw [List.append_assoc, List.rdropWhile_append_rtakeWhile, List.takeWhile_append_dropWhile]
  · intro c hc
    exact isBlank_iff.1 (List.mem_takeWhile_imp hc)
  · intro c hc
    exact isBlank_iff.1 (List.mem_rtakeWhile_imp hc)
  · intro c hc hblank
    -- What is kept starts as what is left after the white space in front.
    obtain ⟨rest, hrest⟩ := List.rdropWhile_prefix isBlank (s.dropWhile isBlank)
    have hhead : (s.dropWhile isBlank).head? = some c := by
      rw [← hrest, List.head?_append, hc]
      rfl
    have hnot := List.head?_dropWhile_not isBlank s
    rw [hhead] at hnot
    exact Bool.false_ne_true (hnot.symm.trans (isBlank_iff.2 hblank))
  · intro c hc hblank
    obtain ⟨hne, hlast⟩ := List.mem_getLast?_eq_getLast hc
    apply List.rdropWhile_last_not isBlank (s.dropWhile isBlank) hne
    rw [← hlast]
    exact isBlank_iff.2 hblank

/-- **Trimming leaves what stands between white space.** -/
theorem trimChars_eq_iff : trimChars s = middle ↔ Strips s middle := by
  constructor
  · rintro rfl
    exact strips_trimChars s
  · rintro ⟨⟨before, after, rfl, hbefore, hafter⟩, hhead, hlast⟩
    have hfront : (before ++ middle ++ after).dropWhile isBlank
        = (middle ++ after).dropWhile isBlank := by
      rw [List.append_assoc]
      exact List.dropWhile_append_of_pos fun c hc => isBlank_iff.2 (hbefore c hc)
    rw [trimChars, hfront]
    cases middle with
    | nil =>
      rw [List.nil_append, List.dropWhile_eq_nil_iff.2 fun c hc => isBlank_iff.2 (hafter c hc)]
      rfl
    | cons c rest =>
      have hc : ¬ isBlank c = true := fun h => hhead c rfl (isBlank_iff.1 h)
      rw [List.cons_append, List.dropWhile_cons_of_neg hc, ← List.cons_append, List.reverse_append,
        List.dropWhile_append_of_pos fun c hc =>
          isBlank_iff.2 (hafter c (List.mem_reverse.1 hc))]
      refine List.rdropWhile_eq_self_iff.2 fun hne h => ?_
      exact hlast _ (List.getLast?_eq_some_getLast hne) (isBlank_iff.1 h)

/-! ## Small letters -/

/-- The letters of the alphabet, each capital one with its small one. -/
def letters : List (Char × Char) :=
  "ABCDEFGHIJKLMNOPQRSTUVWXYZ".toList.zip "abcdefghijklmnopqrstuvwxyz".toList

/-- Whether a character is another one in small letters: the small letter of a capital one, or the
same character, if that is no capital letter. -/
def Lowers (c d : Char) : Prop :=
  (c, d) ∈ letters ∨ (∀ letter ∈ letters, letter.1 ≠ c) ∧ d = c

instance : Decidable (Lowers c d) := inferInstanceAs (Decidable (_ ∨ _))

/-- **Letters are put into lower case by the alphabet**, and nothing else is changed. -/
theorem lowers_iff : Lowers c d ↔ d = c.toLower := by
  by_cases hc : c.toNat < 128
  · have hlower : Lowers c c.toLower :=
      forall_ascii (motive := fun c => Lowers c c.toLower) (by decide +kernel) hc
    have hletters : ∀ letter ∈ letters, letter.2 = letter.1.toLower := by decide +kernel
    constructor
    · rintro (h | ⟨hother, rfl⟩)
      · exact hletters _ h
      · rcases hlower with h | ⟨-, h⟩
        · exact absurd rfl (hother _ h)
        · exact h.symm
    · rintro rfl
      exact hlower
  · have hother : ∀ letter ∈ letters, letter.1 ≠ c := by
      have hascii : ∀ letter ∈ letters, letter.1.toNat < 128 := by decide +kernel
      rintro letter h rfl
      exact hc (hascii letter h)
    have hcapital : ¬ (c.val ≥ 'A'.val ∧ c.val ≤ 'Z'.val) := by
      rintro ⟨-, hle⟩
      exact hc (lt_of_le_of_lt (UInt32.le_iff_toNat_le.1 hle) (by decide))
    have hsame : c.toLower = c := dif_neg hcapital
    rw [hsame]
    constructor
    · rintro (h | ⟨-, h⟩)
      · exact absurd rfl (hother _ h)
      · exact h
    · intro h
      exact Or.inr ⟨hother, h⟩

end Text

namespace Handler

variable {name plain : String} {f : Failure}

/-- Whether a name spells a plain one: between white space, and in small letters, it is the
same. -/
def Spells (name plain : String) : Prop :=
  ∃ middle, Text.Strips name.toList middle ∧ List.Forall₂ Text.Lowers middle plain.toList

/-- **Every name spells one text, the one that it is looked up under.** -/
theorem normalName_eq_iff : normalName name = plain ↔ Spells name plain := by
  have hrelation : Text.Lowers = fun c d => c.toLower = d := by
    funext c d
    exact propext (Text.lowers_iff.trans eq_comm)
  have hlowers : ∀ middle, List.Forall₂ Text.Lowers middle plain.toList ↔
      middle.map Char.toLower = plain.toList := by
    intro middle
    rw [hrelation, ← List.forall₂_eq_eq_eq, List.forall₂_map_left_iff]
  have hname : (normalName name).toList = (Text.trimChars name.toList).map Char.toLower := by
    simp [normalName, Text.lowerAscii, Text.trim]
  simp only [Spells, hlowers, ← Text.trimChars_eq_iff, exists_eq_left']
  rw [← hname, String.toList_inj]

/-- Whether a name is that of a built-in handler. -/
def IsKnown (name : String) : Prop :=
  Spells name "array" ∨ Spells name "record" ∨ Spells name "object"

/-- Whether a name is that of a handler. -/
def IsNamed (name : String) (handler : Handler) : Prop :=
  Spells name "array" ∧ handler = array ∨ Spells name "record" ∧ handler = record ∨
    Spells name "object" ∧ handler = object

/-- **The handler of a name is the one whose name is spelled.** -/
theorem named_eq_ok_iff {handler : Handler} : named name = .ok handler ↔ IsNamed name handler := by
  simp only [IsNamed, ← normalName_eq_iff]
  rw [named]
  split
  · next h => simp [h, eq_comm]
  · next h => simp [h, eq_comm]
  · next h => simp [h, eq_comm]
  · next hobject harray hrecord =>
    constructor
    · intro h
      cases h
    · rintro (⟨h, -⟩ | ⟨h, -⟩ | ⟨h, -⟩)
      exacts [(harray h).elim, (hrecord h).elim, (hobject h).elim]

/-- **A name is unknown if it spells no built-in one**, and is reported as the text that it
spells. -/
theorem named_eq_error_iff : named name = .error f ↔
    ¬ IsKnown name ∧ ∃ plain, Spells name plain ∧ f = .unknownHandler plain := by
  simp only [IsKnown, ← normalName_eq_iff, exists_eq_left']
  rw [named]
  split
  · next h => simp [h]
  · next h => simp [h]
  · next h => simp [h]
  · next hobject harray hrecord =>
    have hunknown : ¬ (normalName name = "array" ∨ normalName name = "record" ∨
        normalName name = "object") := by
      rintro (h | h | h)
      exacts [harray h, hrecord h, hobject h]
    rw [and_iff_right hunknown, Except.error.injEq, eq_comm]

theorem exists_named_eq_ok_iff : (∃ handler, named name = .ok handler) ↔ IsKnown name := by
  simp only [named_eq_ok_iff, IsNamed, IsKnown, exists_or, exists_and_left, exists_eq, and_true]

end Handler

end FieldTree
