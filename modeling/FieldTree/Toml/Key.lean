/-
# Keys of a TOML document

A key is a bare word or a string on one line; several of them with points between lead
through tables to an entry. A path has fewer than eighty keys.
-/
import FieldTree.Toml.Quoting

namespace FieldTree.Toml

/-- The keys that lead to an entry: those of the tables around it, and its own. -/
structure KeyPath where
  parents : List String
  last : String
  deriving DecidableEq, Repr

/-- The path with one more table around it. -/
def KeyPath.inside (key : String) (path : KeyPath) : KeyPath :=
  ⟨key :: path.parents, path.last⟩

/-- How many keys a path must stay below. -/
def pathLimit : Nat := 80

/-- The characters of bare keys. -/
def isBareChar (c : Char) : Bool := c.isAlphanum || c == '-' || c == '_'

/-- Reads one key. -/
def readKey (s : List Char) : Option (Taken s String) :=
  match s with
  | [] => none
  | c :: rest =>
    if c = '"' then (readShort .basic rest).map fun key =>
      (key.map String.ofList).behind
    else if c = '\'' then (readShort .literal rest).map fun key =>
      (key.map String.ofList).behind
    else if isBareChar c then
      some ⟨String.ofList (c :: rest.takeWhile isBareChar), rest.dropWhile isBareChar,
        Nat.lt_succ_of_le (List.dropWhile_sublist isBareChar).length_le⟩
    else none

/-- Reads keys with points between them, and the blanks around each. -/
def readKeys (s : List Char) : Option (Taken s KeyPath) :=
  match readKey (dropSpace s) with
  | none => none
  | some first =>
    have shorter : (dropSpace first.rest).length < s.length :=
      Nat.lt_of_le_of_lt (length_dropSpace_le _)
        (Nat.lt_of_lt_of_le first.shorter (length_dropSpace_le s))
    match _h : dropSpace first.rest with
    | '.' :: rest =>
      match readKeys rest with
      | none => none
      | some more => some ((more.map (·.inside first.value)).within
          (Nat.le_of_lt (length_lt_of_eq_cons _h (Nat.le_of_lt shorter))))
    | rest => some ⟨⟨[], first.value⟩, rest, _h ▸ shorter⟩
termination_by s.length
decreasing_by exact length_lt_of_eq_cons _h (Nat.le_of_lt shorter)

/-- Reads a path of keys. -/
def readKeyPath (s : List Char) : Option (Taken s KeyPath) :=
  (readKeys s).filter fun key => key.value.parents.length + 1 < pathLimit

end FieldTree.Toml
