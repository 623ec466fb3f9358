/-
# Handlers

A handler recognises declarations of one shape and makes their nodes. A chain of handlers
is tried in order; the first that recognises a declaration makes its node, and a
declaration that none recognises becomes a terminal node.

The three built-in handlers look through missing values: `User | null` has the shape of
`User`.
-/
import FieldTree.Failure
import FieldTree.Node
import FieldTree.Text.Blank

namespace FieldTree

/-! ## Targets of the built-in shapes -/

namespace TypeExpr

/-- The type that a plain field refers to: `T`. -/
def objectTarget? (e : TypeExpr) : Option String := e.nonNullable.referenceName?

/-- The type that the elements of an array refer to: `T[]`. -/
def arrayTarget? (e : TypeExpr) : Option String :=
  match e.nonNullable with
  | .array element => element.nonNullable.referenceName?
  | _ => none

/-- The type that the values of a map refer to: `Record<K, T>`. -/
def recordTarget? (e : TypeExpr) : Option String :=
  match e.nonNullable with
  | .map _ value => value.nonNullable.referenceName?
  | _ => none

end TypeExpr

/-! ## Handlers -/

/-- A recogniser of declarations that also makes their nodes. -/
structure Handler where
  name : String
  recognizes : Declaration → Bool
  create : Introspection → Node → Declaration → Node

namespace Handler

/-- The handler that recognises the declarations with a target and makes nodes of one kind. -/
def ofTarget (name : String) (kind : NodeKind) (target? : TypeExpr → Option String) : Handler where
  name := name
  recognizes d := (target? d.type).isSome
  create _ parent d := Node.ofDeclaration kind parent d (target? d.type)

/-- Fields that refer to a type. -/
def object : Handler := ofTarget "object" .object TypeExpr.objectTarget?

/-- Fields that hold an array of references to a type. -/
def array : Handler := ofTarget "array" .array TypeExpr.arrayTarget?

/-- Fields that hold references to a type under keys. -/
def record : Handler := ofTarget "record" .record TypeExpr.recordTarget?

/-- A handler of a fixed kind and target, for the declarations of one name or for all. -/
def fixed (name : String) (field : Option String) (kind : NodeKind) (target : Option String) :
    Handler where
  name := name
  recognizes d := field.all (· == d.name)
  create _ parent d := Node.ofDeclaration kind parent d target

/-! ## Names -/

/-- The names of the default chain, most special shape first. -/
def defaultNames : List String := ["array", "record", "object"]

/-- The default chain. -/
def defaults : List Handler := [array, record, object]

/-- The form in which a handler's name is looked up: trimmed, `A` to `Z` in lower case. -/
def normalName (name : String) : String := Text.lowerAscii (Text.trim name)

/-- The built-in handler of a name. -/
def named (name : String) : Except Failure Handler :=
  match normalName name with
  | "object" => .ok object
  | "array" => .ok array
  | "record" => .ok record
  | other => .error (.unknownHandler other)

/-- The built-in handlers of a list of names; the first unknown name fails. -/
def chain (names : List String) : Except Failure (List Handler) := names.mapM named

/-! ## Making nodes -/

/-- The node that a chain makes for a declaration. -/
def node (ctx : Introspection) (handlers : List Handler) (parent : Node) (d : Declaration) :
    Node :=
  match handlers.find? (·.recognizes d) with
  | some handler => handler.create ctx parent d
  | none => Node.terminal parent d

/-! ## Small facts -/

example : (chain defaultNames).map (·.map Handler.name) = .ok defaultNames := rfl

theorem object_recognizes (d : Declaration) :
    object.recognizes d = d.type.objectTarget?.isSome := rfl

theorem array_recognizes (d : Declaration) :
    array.recognizes d = d.type.arrayTarget?.isSome := rfl

theorem record_recognizes (d : Declaration) :
    record.recognizes d = d.type.recordTarget?.isSome := rfl

end Handler

end FieldTree
