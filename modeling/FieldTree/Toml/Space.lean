/-
# Space in a TOML document

Blanks inside a line, comments, and the ends of lines.
-/
import FieldTree.Taken

namespace FieldTree.Toml

/-- The blanks inside a line. -/
def isSpace (c : Char) : Bool := c == ' ' || c == '\t'

/-- The characters that stand for themselves in comments and strings: everything but control
characters, of which only the tab is one of them. -/
def isPlain (c : Char) : Bool := c == '\t' || (' ' ≤ c && c != '\x7f')

/-- The text after the blanks at its start. -/
def dropSpace (s : List Char) : List Char := s.dropWhile isSpace

/-- The text after the comment at its start, if there is one. -/
def dropComment : List Char → List Char
  | '#' :: rest => rest.dropWhile isPlain
  | s => s

/-- The text after the line end at its start: a line feed, also with a carriage return
before it. -/
def newline? : List Char → Option (List Char)
  | '\n' :: rest => some rest
  | '\r' :: '\n' :: rest => some rest
  | _ => none

/-- The text after the rest of a line that holds nothing but blanks and a comment. -/
def afterLine (s : List Char) : Option (List Char) :=
  match dropComment (dropSpace s) with
  | [] => some []
  | c :: rest => newline? (c :: rest)

/-- The text after the blanks, comments and line ends at its start. -/
def dropTrivia (s : List Char) : List Char :=
  match s with
  | [] => []
  | c :: rest =>
    if isSpace c || c == '\n' || (c == '\r' && rest.head? == some '\n') then dropTrivia rest
    else if c == '#' then dropTrivia (rest.dropWhile isPlain)
    else c :: rest
termination_by s.length
decreasing_by
  · exact Nat.lt_succ_self _
  · exact Nat.lt_succ_of_le (List.dropWhile_sublist isPlain).length_le

/-! ## Nothing gets longer -/

theorem length_dropSpace_le (s : List Char) : (dropSpace s).length ≤ s.length :=
  (List.dropWhile_sublist isSpace).length_le

theorem length_dropComment_le (s : List Char) : (dropComment s).length ≤ s.length := by
  unfold dropComment
  split
  · have := (List.dropWhile_sublist isPlain (l := ‹List Char›)).length_le
    simp only [List.length_cons]; omega
  · exact Nat.le_refl _

theorem length_newline?_lt {s rest : List Char} (h : newline? s = some rest) :
    rest.length < s.length := by
  unfold newline? at h
  split at h
  · cases h; simp only [List.length_cons]; omega
  · cases h; simp only [List.length_cons]; omega
  · cases h

theorem length_afterLine_le {s rest : List Char} (h : afterLine s = some rest) :
    rest.length ≤ s.length := by
  refine Nat.le_trans ?_ (Nat.le_trans (length_dropComment_le (dropSpace s))
    (length_dropSpace_le s))
  unfold afterLine at h
  split at h
  · obtain rfl := Option.some.inj h
    exact Nat.zero_le _
  · rename_i heq
    rw [heq]
    exact Nat.le_of_lt (length_newline?_lt h)

/-- The rest of a line is shorter than the text unless there is no text. -/
theorem length_afterLine_lt {s rest : List Char} (hs : s ≠ []) (h : afterLine s = some rest) :
    rest.length < s.length := by
  have hle := Nat.le_trans (length_dropComment_le (dropSpace s)) (length_dropSpace_le s)
  unfold afterLine at h
  split at h
  · obtain rfl := Option.some.inj h
    exact List.length_pos_iff.2 hs
  · rename_i c after heq
    have := length_newline?_lt h
    rw [heq] at hle
    omega

theorem length_dropTrivia_le (s : List Char) : (dropTrivia s).length ≤ s.length := by
  fun_induction dropTrivia s with
  | case1 => exact Nat.le_refl _
  | case2 c rest _ ih => simp only [List.length_cons]; omega
  | case3 c rest _ _ ih =>
    have := (List.dropWhile_sublist isPlain (l := rest)).length_le
    simp only [List.length_cons]; omega
  | case4 => exact Nat.le_refl _

end FieldTree.Toml
