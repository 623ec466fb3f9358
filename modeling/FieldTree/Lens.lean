/-
# Lenses

For every field of a tree there is a declaration of a lens that focuses on it. An array
also gives a traversal of its elements, a record a lens into its values. A module declares
each identifier once: the first declaration of it stands.
-/
import FieldTree.Arena.Walk
import FieldTree.Node
import FieldTree.Text.Lower

namespace FieldTree.Lens

/-! ## Identifiers -/

/-- Characters in title case: `_` and `-` are dropped, and the character after one is put in
upper case, as is the first one if `start` says so. -/
def titleChars (start : Bool) : List Char → List Char
  | [] => []
  | c :: rest =>
    if c = '_' ∨ c = '-' then titleChars true rest
    else (if start then c.toUpper else c) :: titleChars false rest

/-- A text in title case: `created_at` becomes `CreatedAt`. -/
def titleCase (s : String) : String := String.ofList (titleChars true s.toList)

/-- The identifier of the lens on a field. -/
def identifier (owner field : String) : String :=
  "get" ++ titleCase field ++ "From" ++ titleCase owner

/-- The identifier of the traversal of an array. -/
def traversalIdentifier (element : String) : String := Text.lower element ++ "Traversal"

/-! ## Declarations -/

/-- The declaration of the lens on a field. -/
def field (owner field : String) : String :=
  "const " ++ identifier owner field ++ " = Lens.fromProp<" ++ owner ++ ">()('" ++ field ++ "')"

/-- The declaration of the lens into a record of values under their key field. -/
def record (value field key : String) : String :=
  "const " ++ identifier value field ++ " = Lens.fromProp<Record<" ++ value ++ "['" ++ key
    ++ "'], " ++ value ++ ">>()"

/-- The declaration of the traversal of an array. -/
def traversal (element : String) : String :=
  "const " ++ traversalIdentifier element ++ " = fromTraversable(array)<" ++ element ++ ">()"

/-- A declaration and the identifier that it declares. -/
structure Candidate where
  identifier : String
  line : String
  deriving DecidableEq, Repr

/-- The declarations that one node gives rise to. -/
def candidates (key : String) (n : Node) : List Candidate :=
  let own : Candidate := ⟨identifier n.ownerOrName n.name, field n.ownerOrName n.name⟩
  match n.kind, n.target with
  | .root, _ => []
  | .array, some element => [own, ⟨traversalIdentifier element, traversal element⟩]
  | .record, some value => [own, ⟨identifier value n.name, record value n.name key⟩]
  | _, _ => [own]

/-- The candidates whose identifiers are neither among `seen` nor declared before them. -/
def firsts (seen : List String) : List Candidate → List Candidate
  | [] => []
  | c :: rest =>
    if c.identifier ∈ seen then firsts seen rest else c :: firsts (c.identifier :: seen) rest

/-! ## Modules -/

/-- The declarations for the nodes of a tree, given in pre-order. -/
def declarations (key : String) (nodes : List Node) : List String :=
  (firsts [] (nodes.flatMap (candidates key))).map Candidate.line

/-- The imports that stand at the top of every module. -/
def imports : String :=
  "import \x7bLens, fromTraversable\x7d from 'monocle-ts'\n" ++
  "import \x7barray\x7d from 'fp-ts/lib/Array'"

/-- The text of the module for the nodes of a tree. -/
def moduleText (key : String) (nodes : List Node) : String :=
  imports ++ "\n\n" ++ "\n".intercalate (declarations key nodes) ++ "\n"

/-! ## Small facts -/

example : titleCase "created_at" = "CreatedAt" ∧ titleCase "-a-é" = "Aé" := by decide

example : field "Foo" "count" = "const getCountFromFoo = Lens.fromProp<Foo>()('count')" := by
  decide

example : record "User" "users" "id"
    = "const getUsersFromUser = Lens.fromProp<Record<User['id'], User>>()" := by decide

theorem candidates_root (key : String) {n : Node} (h : n.kind = .root) :
    candidates key n = [] := by
  simp [candidates, h]

end FieldTree.Lens

namespace FieldTree.Arena

/-- The lens declarations for a field tree. -/
def lenses (a : Arena Node) (key : String) : List String := Lens.declarations key a.values

/-- The lens module for a field tree. -/
def lensModule (a : Arena Node) (key : String) : String := Lens.moduleText key a.values

end FieldTree.Arena
