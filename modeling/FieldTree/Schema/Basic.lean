/-
# Schemas

A schema defines types by name, as a struct with members or as a union of other types,
and may declare one of them the root.
-/
import FieldTree.Declaration
import FieldTree.NameMap

namespace FieldTree

/-- What a schema says about a name. -/
inductive Definition where
  /-- A type with members, in order. -/
  | struct (members : List Member)
  /-- A choice between other types, given by their names in order. -/
  | union (variants : List String)
  deriving DecidableEq, Repr

/-- The members of a struct. -/
def Definition.members? : Definition → Option (List Member)
  | .struct members => some members
  | .union _ => none

/-- Named types, one of which may be declared the root. -/
structure Schema where
  root : Option String
  types : NameMap Definition

namespace Schema

/-! ## Making schemas -/

/-- A schema without types and root. -/
def empty : Schema := ⟨none, .empty⟩

/-- The schema with a root declared. -/
def withRoot (s : Schema) (name : String) : Schema := { s with root := some name }

/-- The schema with a name defined, in place of what it was before. -/
def define (s : Schema) (name : String) (d : Definition) : Schema :=
  { s with types := s.types.insert name d }

/-- The schema with a struct defined. -/
def withStruct (s : Schema) (name : String) (members : List Member) : Schema :=
  s.define name (.struct members)

/-- The schema with a union defined. -/
def withUnion (s : Schema) (name : String) (variants : List String) : Schema :=
  s.define name (.union variants)

/-! ## Looking up names -/

/-- The definition of a name. -/
def definition? (s : Schema) (name : String) : Option Definition := s.types.find? name

/-- The members of a struct; unions and unknown names have none. -/
def members? (s : Schema) (name : String) : Option (List Member) :=
  (s.definition? name).bind Definition.members?

/-- The defined names, ascending. -/
def names (s : Schema) : List String := s.types.names

/-- The names of structs, ascending. -/
def structs (s : Schema) : List String :=
  s.names.filter fun name => (s.members? name).isSome

/-! ## Facts about one operation -/

/-- After a definition its name has it, and every other name keeps what it had. -/
theorem definition?_define (s : Schema) (name other : String) (d : Definition) :
    (s.define name d).definition? other
      = if name = other then some d else s.definition? other :=
  NameMap.find?_insert s.types name other d

theorem definition?_eq_none {s : Schema} {name : String} :
    s.definition? name = none ↔ name ∉ s.names := NameMap.find?_eq_none

theorem mem_names_of_definition? {s : Schema} {name : String} {d : Definition}
    (h : s.definition? name = some d) : name ∈ s.names := by
  by_cases hn : name ∈ s.names
  · exact hn
  · rw [definition?_eq_none.2 hn] at h; simp at h

theorem members?_eq_some {s : Schema} {name : String} {members : List Member} :
    s.members? name = some members ↔ s.definition? name = some (.struct members) := by
  unfold members?
  cases h : s.definition? name with
  | none => simp
  | some d => cases d <;> simp [Definition.members?]

end Schema

end FieldTree
