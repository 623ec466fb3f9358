/-
# Title case, segment by segment

Title case is made in one pass over the characters of a text, with a flag that says whether the
next character starts a word.  The pass does what one would say of whole words: it splits the text
at each separator, puts the first character of each segment in upper case, and joins the segments
without the separators.

* `Lens.titleChars_eq` : the pass, with the flag up or down, against the segments;
* `Lens.titleChars_append` : a separator parts the pass;
* `Lens.isSeparator_of_mem_titleChars` : no separator is left;
* `Lens.titleCase_segments` : title case is made segment by segment.
-/
import FieldTree.Lens
import Mathlib

namespace FieldTree.Lens

variable {c : Char}

/-! ## Segments -/

/-- Whether a character stands between the segments of a text. -/
def isSeparator (c : Char) : Bool := c == '_' || c == '-'

theorem isSeparator_iff : isSeparator c = true ↔ c = '_' ∨ c = '-' := by
  rw [isSeparator, Bool.or_eq_true, beq_iff_eq, beq_iff_eq]

/-- A segment with its first character in upper case, if that is a letter from `a` to `z`. -/
def capitalized (segment : List Char) : List Char := segment.modifyHead Char.toUpper

theorem capitalized_cons (c : Char) (segment : List Char) :
    capitalized (c :: segment) = c.toUpper :: segment := rfl

/-- The segments of a text in front of which the flag is up are all capitalized; if it is down, the
first of them stays as it is. -/
def joined (start : Bool) : List (List Char) → List Char
  | [] => []
  | first :: rest => (if start then capitalized first else first) ++ rest.flatMap capitalized

theorem joined_true (segments : List (List Char)) :
    joined true segments = segments.flatMap capitalized := by
  cases segments with
  | nil => rfl
  | cons first rest => rw [joined, if_pos rfl, List.flatMap_cons]

/-- **The pass over the characters capitalizes the segments.** -/
theorem titleChars_eq (start : Bool) (cs : List Char) :
    titleChars start cs = joined start (cs.splitOnP isSeparator) := by
  fun_induction titleChars start cs with
  | case1 start => cases start <;> rfl
  | case2 start c rest hsign ih =>
    rw [List.splitOnP_cons_eq_if_modifyHead, if_pos (isSeparator_iff.2 hsign), ih, joined_true]
    cases start <;> rfl
  | case3 start c rest hsign ih =>
    rw [List.splitOnP_cons_eq_if_modifyHead, if_neg (mt isSeparator_iff.1 hsign), ih]
    -- The character is put in front of the segment that the rest begins with.
    obtain ⟨first, segments, hsplit⟩ :=
      List.exists_cons_of_ne_nil (List.splitOnP_ne_nil isSeparator rest)
    rw [hsplit, List.modifyHead_cons]
    cases start <;> rfl

theorem titleChars_true (cs : List Char) :
    titleChars true cs = (cs.splitOnP isSeparator).flatMap capitalized := by
  rw [titleChars_eq, joined_true]

/-! ## What follows for the pass -/

/-- A separator parts the pass: behind it the flag is up, whatever stood before. -/
theorem titleChars_append (hc : isSeparator c = true) (left right : List Char) :
    titleChars true (left ++ c :: right) = titleChars true left ++ titleChars true right := by
  rw [titleChars_true, titleChars_true, titleChars_true, List.splitOnP_append_cons left right hc,
    List.flatMap_append]

/-- No separator comes out of a character that is put in upper case. -/
theorem isSeparator_toUpper (hc : isSeparator c = false) : isSeparator c.toUpper = false := by
  by_cases hlower : c.isLower = true
  · rw [← Bool.not_eq_true, isSeparator_iff]
    have hupper : c.toUpper.isUpper = true := by
      rw [Char.isUpper_toUpper_eq_isAlpha, Char.isAlpha, hlower, Bool.or_true]
    rintro (h | h) <;> rw [h] at hupper <;> cases hupper
  · rwa [Char.toUpper_eq_of_not_isLower hlower]

/-- No separator is left. -/
theorem isSeparator_of_mem_titleChars (start : Bool) (cs : List Char) :
    ∀ c ∈ titleChars start cs, isSeparator c = false := by
  fun_induction titleChars start cs with
  | case1 => exact nofun
  | case2 start c rest hsign ih => exact ih
  | case3 start c rest hsign ih =>
    have hc : isSeparator c = false := Bool.eq_false_iff.2 (mt isSeparator_iff.1 hsign)
    refine List.forall_mem_cons.2 ⟨?_, ih⟩
    split
    · exact isSeparator_toUpper hc
    · exact hc

/-- Capitalized segments make a text that begins in upper case already. -/
theorem capitalized_flatMap (segments : List (List Char)) :
    capitalized (segments.flatMap capitalized) = segments.flatMap capitalized := by
  induction segments with
  | nil => rfl
  | cons first rest ih =>
    cases first with
    | nil => exact ih
    | cons c segment =>
      rw [List.flatMap_cons, capitalized_cons, List.cons_append, capitalized_cons,
        Char.toUpper_toUpper_eq_toUpper]

/-- A text in title case is one segment, which is capitalized. -/
theorem titleChars_titleChars (cs : List Char) :
    titleChars true (titleChars true cs) = titleChars true cs := by
  have hsingle : (titleChars true cs).splitOnP isSeparator = [titleChars true cs] :=
    List.splitOnP_eq_singleton (isSeparator_of_mem_titleChars true cs)
  calc titleChars true (titleChars true cs)
      = [titleChars true cs].flatMap capitalized := by rw [titleChars_true, hsingle]
    _ = capitalized (titleChars true cs) := List.flatMap_singleton _ _
    _ = titleChars true cs := by rw [titleChars_true cs, capitalized_flatMap]

/-! ## Texts in title case -/

theorem titleCase_append (hc : isSeparator c = true) (s t : String) :
    titleCase (s ++ String.singleton c ++ t) = titleCase s ++ titleCase t := by
  rw [titleCase, String.toList_append, String.toList_append, String.toList_singleton,
    List.append_assoc, List.singleton_append, titleChars_append hc, String.ofList_append]
  rfl

/-- **Title case is made segment by segment.**  The title case of a text is that of its segments,
which stand between the signs `_` and `-`: each with its first character in upper case, in their
order and with nothing between them.  So the title case of two texts with a separator between them
is that of one and then that of the other, no separator is left, and a text in title case stays as
it is. -/
theorem titleCase_segments (s : String) :
    titleCase s = String.ofList ((s.toList.splitOnP fun c => c == '_' || c == '-').flatMap
      fun segment => segment.modifyHead Char.toUpper) ∧
    (∀ t, titleCase (s ++ "_" ++ t) = titleCase s ++ titleCase t ∧
      titleCase (s ++ "-" ++ t) = titleCase s ++ titleCase t) ∧
    ('_' ∉ (titleCase s).toList ∧ '-' ∉ (titleCase s).toList) ∧
    titleCase (titleCase s) = titleCase s := by
  have hnone : ∀ c ∈ (titleCase s).toList, isSeparator c = false := by
    rw [titleCase, String.toList_ofList]
    exact isSeparator_of_mem_titleChars true s.toList
  refine ⟨?_, ?_, ?_, ?_⟩
  · rw [titleCase, titleChars_true]
    rfl
  · intro t
    exact ⟨titleCase_append (c := '_') rfl s t, titleCase_append (c := '-') rfl s t⟩
  · exact ⟨fun h => Bool.false_ne_true (hnone _ h).symm,
      fun h => Bool.false_ne_true (hnone _ h).symm⟩
  · rw [titleCase, titleCase, String.toList_ofList, titleChars_titleChars]

example : titleCase "__order-_item_" = "OrderItem" := by decide

end FieldTree.Lens
