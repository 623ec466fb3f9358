/-
# Declarations and members

What a type says about one of its members: a declaration with a name, a kind and a type.
Only properties become fields of a tree. A member may also stand without a declaration.
-/
import FieldTree.TypeExpr.Basic

namespace FieldTree

/-- What kind of member a declaration declares. -/
inductive DeclarationKind where
  | property
  | method
  | index
  | accessor
  deriving DecidableEq, Repr

namespace DeclarationKind

/-- All kinds, in the order in which they are listed to readers. -/
def all : List DeclarationKind := [property, method, index, accessor]

/-- The word for a kind. -/
def text : DeclarationKind → String
  | property => "property"
  | method => "method"
  | index => "index"
  | accessor => "accessor"

/-- The kind that a word stands for. -/
def ofText? (word : String) : Option DeclarationKind := all.find? (·.text == word)

end DeclarationKind

/-- The declaration of a member. -/
structure Declaration where
  name : String
  kind : DeclarationKind
  type : TypeExpr
  optional : Bool
  deriving DecidableEq, Repr

/-- Whether a declaration declares a property. -/
def Declaration.isProperty (d : Declaration) : Bool := d.kind == .property

/-- A member of a type. -/
structure Member where
  name : String
  declaration : Option Declaration
  deriving DecidableEq, Repr

namespace Member

/-- The member that a declaration declares. -/
def declared (d : Declaration) : Member := ⟨d.name, some d⟩

/-- A member without a declaration. -/
def synthetic (name : String) : Member := ⟨name, none⟩

/-- The declaration of a member that is a property. -/
def property? (m : Member) : Option Declaration := m.declaration.filter (·.isProperty)

/-- The properties among some members, in order. -/
def properties (members : List Member) : List Declaration := members.filterMap property?

theorem mem_properties {members : List Member} {d : Declaration} :
    d ∈ properties members ↔
      d.isProperty = true ∧ ∃ m ∈ members, m.declaration = some d := by
  simp only [properties, List.mem_filterMap, property?, Option.filter_eq_some_iff]
  grind

end Member

end FieldTree
