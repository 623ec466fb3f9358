/-
# Parts of settings

A name may stand for a part of a setting: `handlers[0]` for its first element, and
`handlers[-1]` for its last one. A setting grows with its parts; elements that are missing
in between stay empty, and an element that was not a list before becomes one.
-/
import FieldTree.Decimal.Literal
import FieldTree.Taken

namespace FieldTree

/-! ## Names of parts -/

/-- A step from a setting to one of its parts. -/
inductive Step where
  /-- To an entry of a table. No setting is a table, so its name does not matter. -/
  | entry
  /-- To an element of a list, counted from its end if below zero. -/
  | element (index : Int)
  deriving DecidableEq, Repr

namespace Step

/-- The characters of the names of settings and entries. -/
def isNameChar (c : Char) : Bool := c.isAlphanum || c == '_' || c == '-'

/-- The blanks that may stand around an index. -/
def isBlank (c : Char) : Bool := c == ' ' || c == '\t'

/-- The text without the blanks around it. -/
def unpadded (s : List Char) : List Char :=
  ((s.dropWhile isBlank).reverse.dropWhile isBlank).reverse

/-- The index that a text between square brackets writes. -/
def index? (s : List Char) : Option Int :=
  match unpadded s with
  | '+' :: _ => none
  | word =>
    (Decimal.integer? word).filter fun i => -0x8000000000000000 ≤ i && i < 0x8000000000000000

/-- The steps that a text writes one after another. -/
def list? (s : List Char) : Option (List Step) :=
  match s with
  | [] => some []
  | '.' :: rest =>
    if rest.takeWhile isNameChar = [] then none
    else (list? (rest.dropWhile isNameChar)).map (entry :: ·)
  | '[' :: rest =>
    match _h : rest.dropWhile (· != ']'), index? (rest.takeWhile (· != ']')) with
    | _ :: after, some index => (list? after).map (element index :: ·)
    | _, _ => none
  | _ => none
termination_by s.length
decreasing_by
  · exact Nat.lt_succ_of_le (List.dropWhile_sublist isNameChar).length_le
  · exact Nat.lt_succ_of_lt (length_lt_of_eq_cons _h (List.dropWhile_sublist (· != ']')).length_le)

end Step

/-- A setting and the steps to one of its parts. -/
structure Place where
  key : String
  steps : List Step
  deriving DecidableEq, Repr

/-- The place that a text names. -/
def Place.ofText? (s : List Char) : Option Place :=
  (Step.list? (s.dropWhile Step.isNameChar)).map fun steps =>
    ⟨String.ofList (s.takeWhile Step.isNameChar), steps⟩

/-! ## Growing settings -/

/-- What has been stated about a setting or a part of it. -/
inductive Part where
  | nothing
  | word (text : String)
  | list (elements : List Part)
  | table
  deriving Repr

namespace Part

/-- The elements of a list; anything else gives way to a new list. -/
def elements : Part → List Part
  | list elements => elements
  | _ => []

/-- The elements, with as many empty ones added that an index has one, and its place among
them. An index too far below zero adds elements in front. -/
def extended (elements : List Part) (index : Int) : List Part × Nat :=
  if 0 ≤ index then
    (elements ++ List.replicate (index.toNat + 1 - elements.length) nothing, index.toNat)
  else
    (List.replicate ((-index).toNat - elements.length) nothing ++ elements,
      elements.length - (-index).toNat)

/-- What is stated once the part at the end of some steps is said to be something new. -/
def put (old : Part) (steps : List Step) (new : Part) : Part :=
  match steps with
  | [] => new
  | .entry :: _ => table
  | .element index :: steps =>
    let (elements, place) := extended old.elements index
    list (elements.modify place fun part => part.put steps new)

end Part

/-! ## Small facts -/

example : Place.ofText? ['h', '[', ' ', '-', '1', ' ', ']'] = some ⟨"h", [.element (-1)]⟩ := by
  decide +kernel

example : Place.ofText? ['h', '[', '+', '1', ']'] = none := by decide +kernel

end FieldTree
