/-
# Schema files

What a schema file says, with types still as text. A file resolves to a schema when no type
declares both members and variants and every type of a member can be read; otherwise the
first fault is reported, types in ascending order of their names, members in their order.
-/
import FieldTree.Failure
import FieldTree.Schema.Basic
import FieldTree.TypeExpr.Parser

namespace FieldTree

/-- A member as a file states it. -/
structure MemberEntry where
  name : String
  type : String
  kind : DeclarationKind
  optional : Bool
  deriving DecidableEq, Repr

/-- A type as a file states it. -/
structure TypeEntry where
  members : Option (List MemberEntry)
  union : Option (List String)
  deriving DecidableEq, Repr

/-- The contents of a schema file. -/
structure SchemaFile where
  root : Option String
  types : NameMap TypeEntry

/-- Reads a text as a type; a failure names the text and what went wrong. -/
def readType (written : String) : Except Failure TypeExpr :=
  (TypeExpr.parse written).mapError fun e => .invalidTypeExpr written e.message

namespace SchemaFile

/-- The member that an entry of a type states. -/
def member (origin owner : String) (m : MemberEntry) : Except Failure Member :=
  match readType m.type with
  | .ok type => .ok (.declared ⟨m.name, m.kind, type, m.optional⟩)
  | .error fault => .error (.schema origin (owner ++ "." ++ m.name ++ ": " ++ fault.message))

/-- The definition that an entry states. A type that says nothing is a struct without
members. -/
def definition (origin name : String) (t : TypeEntry) : Except Failure Definition :=
  match t.members, t.union with
  | some _, some _ =>
    .error (.schema origin ("type '" ++ name ++ "' declares both members and union"))
  | none, some variants => .ok (.union variants)
  | members, none => return .struct (← (members.getD []).mapM (member origin name))

/-- The schema that a file states; `origin` names the file in failures. -/
def resolve (origin : String) (f : SchemaFile) : Except Failure Schema :=
  f.types.entries.foldlM (fun s entry => do
    return s.define entry.1 (← definition origin entry.1 entry.2)) ⟨f.root, .empty⟩

end SchemaFile

end FieldTree
