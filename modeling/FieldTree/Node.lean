/-
# Nodes of a field tree

The root stands for a type, every other node for a field: its name, the type that owns
it, its declaration, and the type that it decomposes into.
-/
import FieldTree.Introspection

namespace FieldTree

/-- What a node stands for. -/
inductive NodeKind where
  | root
  | terminal
  | object
  | array
  | record
  | custom (name : String)
  deriving DecidableEq, Repr

namespace NodeKind

/-- The word for a kind. -/
def text : NodeKind → String
  | root => "root"
  | terminal => "terminal"
  | object => "object"
  | array => "array"
  | record => "record"
  | custom name => name

/-- The kind that a word stands for; a word of no other kind names a custom one. -/
def ofText (word : String) : NodeKind :=
  if word = "root" then root
  else if word = "terminal" then terminal
  else if word = "object" then object
  else if word = "array" then array
  else if word = "record" then record
  else custom word

end NodeKind

/-- A node of a field tree. -/
structure Node where
  kind : NodeKind
  name : String
  /-- The type that the field belongs to. -/
  owner : Option String
  declaration : Option Declaration
  /-- The type that the node decomposes into. -/
  target : Option String
  deriving DecidableEq, Repr

namespace Node

/-- The root of the tree of a type. -/
def root (type : String) : Node := ⟨.root, type, none, none, some type⟩

/-- The node for a declaration found in the type that `parent` decomposes into. -/
def ofDeclaration (kind : NodeKind) (parent : Node) (d : Declaration)
    (target : Option String) : Node :=
  ⟨kind, d.name, parent.target, some d, target⟩

/-- The node for a field that is not decomposed. -/
def terminal (parent : Node) (d : Declaration) : Node := ofDeclaration .terminal parent d none

/-- The symbols of the type that a node decomposes into. -/
def symbols (ctx : Introspection) (n : Node) : List String :=
  match n.target with
  | some target => ctx.symbols target
  | none => []

/-- Whether a node is a field that is not decomposed. -/
def isTerminal (n : Node) : Bool := n.kind == .terminal

/-- The owner of a node, or its own name if it has none. -/
def ownerOrName (n : Node) : String := n.owner.getD n.name

/-- The label of a node: its name, and for a declared field also its type and kind. -/
def label (n : Node) : String :=
  match n.kind, n.declaration with
  | .root, _ | _, none => n.name
  | kind, some d =>
    n.name ++ (if d.optional then "?" else "") ++ ": " ++ d.type.text ++ " [" ++ kind.text ++ "]"

example : (terminal (root "Foo")
      ⟨"count", .property, .keyword "number", true⟩).label = "count?: number [terminal]" := by
  decide

end Node

end FieldTree
