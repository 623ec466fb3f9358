/-
# The format of schema files

A schema file is a TOML document with an optional `root` and a table `types`. A type has
`members` or a `union`; a member has a `name`, a `type`, a `kind` and may be `optional`.
Where a table of fixed keys is expected an array of their values in order will do.
-/
import FieldTree.Schema.File
import FieldTree.Toml.Misfit

namespace FieldTree

open Toml (Misfit Value Entries)

namespace MemberEntry

/-- The keys of a member. -/
def fields : List String := ["name", "type", "kind", "optional"]

/-- The kind of a member. -/
def kindOf (v : Value) : Except Misfit DeclarationKind :=
  v.asVariant (DeclarationKind.all.map (·.text)) DeclarationKind.ofText?

/-- A member of which some keys have been read. -/
structure Partial where
  name : Option String
  type : Option String
  kind : DeclarationKind
  optional : Bool

/-- Reads one more key. -/
def Partial.add (m : Partial) (entry : String × Value) : Except Misfit Partial :=
  match entry.1 with
  | "name" => return { m with name := some (← entry.2.asString) }
  | "type" => return { m with type := some (← entry.2.asString) }
  | "kind" => return { m with kind := ← kindOf entry.2 }
  | "optional" => return { m with optional := ← entry.2.asBoolean }
  | other => .error (.unknownField other fields)

/-- The member, once all its keys have been read. -/
def Partial.finish (m : Partial) : Except Misfit MemberEntry :=
  match m.name, m.type with
  | none, _ => .error (.missingField "name")
  | _, none => .error (.missingField "type")
  | some name, some type => .ok ⟨name, type, m.kind, m.optional⟩

/-- What an array for a member must be. -/
def asArray : String := "struct MemberFile with 4 elements"

/-- The member that the elements of an array state. -/
def ofElements : List Value → Except Misfit MemberEntry
  | [] => .error (.invalidLength 0 asArray)
  | [name] => do
    let _ ← name.asString
    .error (.invalidLength 1 asArray)
  | name :: type :: rest => do
    let name ← name.asString
    let type ← type.asString
    let kind ← rest[0]?.elim (.ok .property) kindOf
    let optional ← rest[1]?.elim (.ok false) Value.asBoolean
    return ⟨name, type, kind, optional⟩

/-- The member that a value states. -/
def ofValue : Value → Except Misfit MemberEntry
  | .table entries => do (← entries.foldlM Partial.add ⟨none, none, .property, false⟩).finish
  | .dateTime _ => .error (.unknownField Value.dateTimeKey fields)
  | v =>
    match v.elements? with
    | some elements => ofElements elements
    | none => v.misfit "struct MemberFile"

end MemberEntry

namespace TypeEntry

/-- The keys of a type. -/
def fields : List String := ["members", "union"]

/-- The members of a type. -/
def membersOf (v : Value) : Except Misfit (List MemberEntry) := v.asSequence MemberEntry.ofValue

/-- The variants of a type. -/
def unionOf (v : Value) : Except Misfit (List String) := v.asSequence Value.asString

/-- Reads one more key of a type. -/
def add (t : TypeEntry) (entry : String × Value) : Except Misfit TypeEntry :=
  match entry.1 with
  | "members" => return { t with members := some (← membersOf entry.2) }
  | "union" => return { t with union := some (← unionOf entry.2) }
  | other => .error (.unknownField other fields)

/-- What an array for a type must be. -/
def asArray : String := "struct TypeDefFile with 2 elements"

/-- What a single value for a type must be. -/
def asStruct : String := "struct TypeDefFile"

/-- The type that the elements of an array state. -/
def ofElements : List Value → Except Misfit TypeEntry
  | [] => .error (.invalidLength 0 asArray)
  | [members] => do
    let _ ← membersOf members
    .error (.invalidLength 1 asArray)
  | members :: union :: _ => do
    let members ← membersOf members
    let union ← unionOf union
    return ⟨some members, some union⟩

/-- The type that a value states. -/
def ofValue : Value → Except Misfit TypeEntry
  | .table entries => entries.foldlM add ⟨none, none⟩
  | .dateTime _ => .error (.unknownField Value.dateTimeKey fields)
  | v =>
    match v.elements? with
    | some elements => ofElements elements
    | none => v.misfit asStruct

end TypeEntry

namespace SchemaFile

/-- The keys of a schema file. -/
def fields : List String := ["root", "types"]

/-- The types that a value states. -/
def typesOf : Value → Except Misfit (NameMap TypeEntry)
  | .table entries => do
    return .ofList (← entries.mapM fun entry => do return (entry.1, ← TypeEntry.ofValue entry.2))
  | .dateTime text => (Value.string text).misfit TypeEntry.asStruct
  | v => v.misfit "a map"

/-- Reads one more key of a schema file. -/
def add (f : SchemaFile) (entry : String × Value) : Except Misfit SchemaFile :=
  match entry.1 with
  | "root" => return { f with root := some (← entry.2.asString) }
  | "types" => return { f with types := ← typesOf entry.2 }
  | other => .error (.unknownField other fields)

/-- The schema file that the entries of a document state. -/
def ofEntries (entries : Entries) : Except Misfit SchemaFile :=
  entries.foldlM add ⟨none, .empty⟩

end SchemaFile

/-- The schema that a text states; `origin` names the text in failures. -/
def Schema.parse (text origin : String) : Except Failure Schema :=
  match Toml.readAs SchemaFile.ofEntries text with
  | .error e => .error (.schema origin e.message)
  | .ok file => file.resolve origin

end FieldTree
