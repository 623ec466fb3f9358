/-
# Single-word values of a TOML document

Numbers, truth values, dates and times are words: a word goes on as long as its characters
may stand in one of them. Only a blank between a date and a time of day belongs to a value.
-/
import FieldTree.Taken
import FieldTree.Toml.DateTime
import FieldTree.Toml.Number
import FieldTree.Toml.Value

namespace FieldTree.Toml

/-- The characters of words. -/
def isWordChar (c : Char) : Bool :=
  c.isAlphanum || c == '+' || c == '-' || c == '_' || c == '.' || c == ':'

/-- The truth value that a word is. -/
def boolean? (word : List Char) : Option Bool :=
  if word = ['t', 'r', 'u', 'e'] then some true
  else if word = ['f', 'a', 'l', 's', 'e'] then some false
  else none

/-- The value that a word is. -/
def scalar? (word : List Char) : Option Value :=
  (boolean? word).map .boolean
    <|> (dateTime? word).map .dateTime
    <|> (float? word).map .float
    <|> (integer? word).map .integer

/-- The time of day that stands after a date and a blank, put together with the date. -/
def readTimeAfter (word rest : List Char) : Option (Left rest String) :=
  match date? word, rest with
  | some (date, []), ' ' :: more =>
    (timeWithOffset? (more.takeWhile isWordChar)).map fun time =>
      ⟨date ++ "T" ++ time, more.dropWhile isWordChar,
        Nat.le_succ_of_le (List.dropWhile_sublist isWordChar).length_le⟩
  | _, _ => none

/-- Reads a value that is a word. -/
def readScalar (s : List Char) : Option (Taken s Value) :=
  if h : s.takeWhile isWordChar = [] then none
  else
    have shorter := length_dropWhile_lt h
    match readTimeAfter (s.takeWhile isWordChar) (s.dropWhile isWordChar) with
    | some time => some ⟨.dateTime time.value, time.rest, Nat.lt_of_le_of_lt time.notLonger shorter⟩
    | none =>
      (scalar? (s.takeWhile isWordChar)).map fun value => ⟨value, s.dropWhile isWordChar, shorter⟩

end FieldTree.Toml
