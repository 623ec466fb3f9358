/-
# Strings of a TOML document

A string stands between quotation marks, which may escape characters by a backslash, or
between apostrophes, which take every character as it is. Between three marks on either
side it may go over several lines; a line feed right after the opening marks does not
count, and up to two marks may stand before the closing ones.
-/
import FieldTree.Decimal.Digits
import FieldTree.Toml.Space

namespace FieldTree.Toml

/-- The two kinds of marks around a string. -/
inductive Quoting where
  /-- Quotation marks, with escapes. -/
  | basic
  /-- Apostrophes, without escapes. -/
  | literal
  deriving DecidableEq, Repr

/-- The mark itself. -/
def Quoting.mark : Quoting → Char
  | basic => '"'
  | literal => '\''

/-- Whether a character starts an escape. -/
def Quoting.escapes (q : Quoting) (c : Char) : Bool := q == .basic && c == '\\'

/-! ## Escapes -/

/-- The character whose code stands in hexadecimal digits of a fixed number. -/
def readCode (width : Nat) (s : List Char) : Option (Left s Char) :=
  let written := s.take width
  let code := Decimal.ofDigits 16 written
  if written.length = width ∧ written.all Decimal.isHexDigit ∧ code.isValidChar then
    some ⟨Char.ofNat code, s.drop width, (List.drop_sublist _ _).length_le⟩
  else none

/-- The character that a letter or mark after a backslash stands for. -/
def shortEscape? : Char → Option Char
  | 'b' => some '\x08'
  | 't' => some '\t'
  | 'n' => some '\n'
  | 'f' => some '\x0c'
  | 'r' => some '\r'
  | '"' => some '"'
  | '\\' => some '\\'
  | _ => none

/-- The number of digits of the code that a letter after a backslash announces. -/
def codeWidth? : Char → Option Nat
  | 'u' => some 4
  | 'U' => some 8
  | _ => none

/-- Reads an escape after its backslash. -/
def readEscape (s : List Char) : Option (Taken s Char) :=
  match s with
  | [] => none
  | c :: rest =>
    match shortEscape? c with
    | some escaped => some ⟨escaped, rest, Nat.lt_succ_self _⟩
    | none =>
      match codeWidth? c with
      | none => none
      | some width =>
        (readCode width rest).map fun code =>
          ⟨code.value, code.rest, Nat.lt_succ_of_le code.notLonger⟩

/-! ## Bodies of strings -/

/-- Reads the rest of a string on one line, after its opening mark. -/
def readShort (q : Quoting) (s : List Char) : Option (Taken s (List Char)) :=
  match s with
  | [] => none
  | c :: rest =>
    if c = q.mark then some ⟨[], rest, Nat.lt_succ_self _⟩
    else if q.escapes c then
      match readEscape rest with
      | none => none
      | some escaped =>
        match readShort q escaped.rest with
        | none => none
        | some more => some (.before [escaped.value] more
            (Nat.le_of_lt (Nat.lt_succ_of_lt escaped.shorter)))
    else if isPlain c then
      match readShort q rest with
      | none => none
      | some more => some (.before [c] more (Nat.le_succ _))
    else none
termination_by s.length
decreasing_by
  · exact Nat.lt_succ_of_lt escaped.shorter
  · exact Nat.lt_succ_self _

/-- The end of a string of several lines, from the second mark of a run on: two more marks
close it, and up to two others before them belong to it. -/
def readClosing (q : Quoting) (s : List Char) : Option (Taken s (List Char)) :=
  match s with
  | a :: b :: rest =>
    if a = q.mark ∧ b = q.mark then
      let extra := (rest.take 2).takeWhile (· == q.mark)
      some ⟨extra, rest.drop extra.length,
        Nat.lt_succ_of_le (Nat.le_succ_of_le (List.drop_sublist _ _).length_le)⟩
    else none
  | _ => none

/-- The text after an escaped line end: the blanks and line ends up to the next character. -/
def afterEscapedLine (s : List Char) : Option (List Char) :=
  (newline? (dropSpace s)).map dropLines
where
  /-- Drops blanks and line ends. -/
  dropLines (s : List Char) : List Char :=
    match s with
    | [] => []
    | c :: rest =>
      if isSpace c || c == '\n' || (c == '\r' && rest.head? == some '\n') then dropLines rest
      else c :: rest

theorem length_dropLines_le (s : List Char) :
    (afterEscapedLine.dropLines s).length ≤ s.length := by
  induction s with
  | nil => exact Nat.le_refl _
  | cons c rest ih =>
    unfold afterEscapedLine.dropLines
    split
    · exact Nat.le_succ_of_le ih
    · exact Nat.le_refl _

theorem length_afterEscapedLine_lt {s rest : List Char} (h : afterEscapedLine s = some rest) :
    rest.length < s.length := by
  obtain ⟨after, ha, rfl⟩ := Option.map_eq_some_iff.1 h
  have := length_newline?_lt ha
  have := length_dropLines_le after
  have := length_dropSpace_le s
  omega

/-- Reads the rest of a string of several lines, after its opening marks. -/
def readLong (q : Quoting) (s : List Char) : Option (Taken s (List Char)) :=
  match s with
  | [] => none
  | c :: rest =>
    if c = q.mark then
      match readClosing q rest with
      | some closing => some ⟨closing.value, closing.rest, Nat.lt_succ_of_lt closing.shorter⟩
      | none =>
        match readLong q rest with
        | none => none
        | some more => some (.before [c] more (Nat.le_succ _))
    else if q.escapes c then
      match _h : afterEscapedLine rest with
      | some after =>
        match readLong q after with
        | none => none
        | some more => some (more.within
            (Nat.le_of_lt (Nat.lt_succ_of_lt (length_afterEscapedLine_lt _h))))
      | none =>
        match readEscape rest with
        | none => none
        | some escaped =>
          match readLong q escaped.rest with
          | none => none
          | some more => some (.before [escaped.value] more
              (Nat.le_of_lt (Nat.lt_succ_of_lt escaped.shorter)))
    else
      match _h : newline? (c :: rest) with
      | some after =>
        match readLong q after with
        | none => none
        | some more => some (.before ['\n'] more (Nat.le_of_lt (length_newline?_lt _h)))
      | none =>
        if isPlain c then
          match readLong q rest with
          | none => none
          | some more => some (.before [c] more (Nat.le_succ _))
        else none
termination_by s.length
decreasing_by
  · exact Nat.lt_succ_self _
  · exact Nat.lt_succ_of_lt (length_afterEscapedLine_lt _h)
  · exact Nat.lt_succ_of_lt escaped.shorter
  · exact length_newline?_lt _h
  · exact Nat.lt_succ_self _

/-! ## Whole strings -/

/-- The text after a line feed right after the opening marks. -/
def dropFirstNewline (s : List Char) : List Char := (newline? s).getD s

theorem length_dropFirstNewline_le (s : List Char) : (dropFirstNewline s).length ≤ s.length := by
  unfold dropFirstNewline
  cases h : newline? s with
  | none => exact Nat.le_refl _
  | some rest => exact Nat.le_of_lt (length_newline?_lt h)

/-- Reads a string after its first mark. -/
def readAfterMark (q : Quoting) (s : List Char) : Option (Taken s (List Char)) :=
  match s with
  | a :: b :: rest =>
    if a = q.mark ∧ b = q.mark then
      match readLong q (dropFirstNewline rest) with
      | none => none
      | some body => some (body.within
          (Nat.le_succ_of_le (Nat.le_succ_of_le (length_dropFirstNewline_le rest))))
    else readShort q (a :: b :: rest)
  | s => readShort q s

/-! ## Small facts -/

example : ((readAfterMark .basic ['a', '\\', 'u', '0', '0', 'e', '9', '"', ' ']).map Taken.pair)
    = some (['a', 'é'], [' ']) := by decide +kernel

/-- Up to two marks may stand before the three that close a string of several lines. -/
example : ((readAfterMark .literal ['\'', '\'', 'a', '\'', '\'', '\'', '\'']).map Taken.pair)
    = some (['a', '\''], []) := by decide +kernel

end FieldTree.Toml
