/-
# Failures

Everything that can go wrong for a caller, one constructor per cause, with its wording
and the exit code of a program that ends with it.
-/

namespace FieldTree

/-! ## Exit codes -/

namespace ExitCode

/-- All went well. -/
def ok : Nat := 0

/-- The program was called in a wrong way. -/
def usage : Nat := 64

/-- The input data is malformed, or describes a type without end. -/
def data : Nat := 65

/-- An input file is missing. -/
def noInput : Nat := 66

/-- An error inside the program. -/
def software : Nat := 70

/-- A file could not be read. -/
def io : Nat := 74

/-- The settings are wrong. -/
def config : Nat := 78

end ExitCode

/-! ## Causes -/

/-- Why an operation failed. -/
inductive Failure where
  /-- A handle that belongs to no node of the tree it was used with. -/
  | nodeNotFound (handle : String)
  /-- A field below `path` would stand deeper than the limit. -/
  | depthExceeded (path : String) (maxDepth : Nat)
  /-- The fields below `path` go on for ever. -/
  | endless (path : String)
  /-- A text that is no type. -/
  | invalidTypeExpr (input detail : String)
  /-- A name that no handler has. -/
  | unknownHandler (name : String)
  /-- A root type without members. -/
  | unknownRootType (name : String)
  /-- Neither the caller nor the schema names a root type. -/
  | missingRootType
  /-- Settings that cannot be read, used or written. -/
  | config (detail : String)
  /-- A file that is there but cannot be read. -/
  | io (context : String)
  /-- A file that is not there. -/
  | fileNotFound (path : String)
  /-- A schema that cannot be used. -/
  | schema (origin detail : String)
  /-- A wrong call of the program. -/
  | usage (detail : String)
  deriving DecidableEq, Repr

namespace Failure

/-- The wording of a failure. Its parts are inserted as they are. -/
def message : Failure → String
  | nodeNotFound handle => "node not found in tree: " ++ handle
  | depthExceeded path maxDepth =>
    "maximum depth " ++ toString maxDepth ++ " exceeded at '" ++ path ++ "'"
  | endless path => "the fields below '" ++ path ++ "' never end"
  | invalidTypeExpr input detail => "invalid type expression '" ++ input ++ "': " ++ detail
  | unknownHandler name => "unknown node handler: " ++ name
  | unknownRootType name => "unknown root type: " ++ name
  | missingRootType => "no root type given and none declared by the schema"
  | config detail => "config error: " ++ detail
  | io context => "I/O error: " ++ context
  | fileNotFound path => "file not found: " ++ path
  | schema origin detail => "invalid schema " ++ origin ++ ": " ++ detail
  | usage detail => detail

/-- The exit code of a program that ends with a failure. -/
def exitCode : Failure → Nat
  | nodeNotFound _ | endless _ => ExitCode.software
  | depthExceeded .. | invalidTypeExpr .. | schema .. => ExitCode.data
  | unknownHandler _ | config _ => ExitCode.config
  | unknownRootType _ | missingRootType | usage _ => ExitCode.usage
  | io _ => ExitCode.io
  | fileNotFound _ => ExitCode.noInput

end Failure

end FieldTree
