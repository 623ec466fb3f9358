/-
# Fitting values to expectations

A document may be well formed and still not say what is expected of it. The first value
that does not fit is reported, with what it is and what would have been right.
-/
import FieldTree.Decimal.Shortest
import FieldTree.Text.Quoted
import FieldTree.Toml.Document

namespace FieldTree.Toml

/-- How a document fails to say what is expected. -/
inductive Misfit where
  /-- A key that means nothing, and those that would. -/
  | unknownField (name : String) (known : List String)
  /-- A key that is missing. -/
  | missingField (name : String)
  /-- A word that names no case, and those that would. -/
  | unknownVariant (name : String) (known : List String)
  /-- A value of the wrong type. -/
  | invalidType (found expected : String)
  /-- A value of the right type that is out of range. -/
  | invalidValue (found expected : String)
  /-- A list with too few elements. -/
  | invalidLength (length : Nat) (expected : String)
  /-- A case that is given neither by a word nor by a table. -/
  | notVariant
  /-- A case given by a table that has more or fewer entries than one. -/
  | notSingle (isEmpty : Bool)
  /-- A case given by an entry whose content holds something, and what should be empty. -/
  | notEmpty (expected : String)
  /-- A case given by an entry with some other content. -/
  | notTable (found : String)
  deriving DecidableEq, Repr

/-- Names as they are listed to readers. -/
def listing (names : List String) : String :=
  let quoted := names.map fun name => "`" ++ name ++ "`"
  match quoted with
  | [a, b] => a ++ " or " ++ b
  | _ => "one of " ++ ", ".intercalate quoted

/-- The wording of a misfit. -/
def Misfit.message : Misfit → String
  | unknownField name known => "unknown field `" ++ name ++ "`, expected " ++ listing known
  | missingField name => "missing field `" ++ name ++ "`"
  | unknownVariant name known => "unknown variant `" ++ name ++ "`, expected " ++ listing known
  | invalidType found expected => "invalid type: " ++ found ++ ", expected " ++ expected
  | invalidValue found expected => "invalid value: " ++ found ++ ", expected " ++ expected
  | invalidLength length expected =>
    "invalid length " ++ toString length ++ ", expected " ++ expected
  | notVariant => "wanted string or table"
  | notSingle isEmpty =>
    "wanted exactly 1 element, " ++
      (if isEmpty then "found 0 elements" else "more than 1 element")
  | notEmpty expected => "expected empty " ++ expected
  | notTable found => "expected table, found " ++ found

/-- Why a document could not be used. -/
inductive ReadError where
  /-- It is no document at all. -/
  | malformed
  /-- It does not say what is expected. -/
  | misfit (m : Misfit)
  deriving DecidableEq, Repr

/-- The wording of a read error. -/
def ReadError.message : ReadError → String
  | malformed => "TOML syntax error"
  | misfit m => "TOML data error: " ++ m.message

/-- Reads a document and fits its entries to what is expected. -/
def readAs {α : Type} (fit : Entries → Except Misfit α) (text : String) : Except ReadError α :=
  match read? text with
  | none => .error .malformed
  | some entries => (fit entries).mapError .misfit

namespace Value

/-! ## What a value is -/

/-- What a value is called in a misfit of types. -/
def described : Value → String
  | string text => "string " ++ Text.quoted text
  | integer value => "integer `" ++ toString value ++ "`"
  | float value => "floating point `" ++ value.textWithPoint ++ "`"
  | boolean value => "boolean `" ++ toString value ++ "`"
  | array _ | tables _ => "sequence"
  | dateTime _ | table _ => "map"

/-- The word for the type of a value. -/
def typeName : Value → String
  | string _ => "string"
  | integer _ => "integer"
  | float _ => "float"
  | boolean _ => "boolean"
  | dateTime _ => "datetime"
  | array _ => "array"
  | table _ => "table"
  | tables _ => "array of tables"

/-- The misfit of a value where a type is expected. -/
def misfit {α : Type} (v : Value) (expected : String) : Except Misfit α :=
  .error (.invalidType v.described expected)

/-! ## Fitting to types -/

/-- The text of a string. -/
def asString : Value → Except Misfit String
  | string text => .ok text
  | v => v.misfit "a string"

/-- The truth value. -/
def asBoolean : Value → Except Misfit Bool
  | boolean value => .ok value
  | v => v.misfit "a boolean"

/-- The whole number from zero on. -/
def asNatural : Value → Except Misfit Nat
  | integer value =>
    if 0 ≤ value then .ok value.toNat
    else .error (.invalidValue (integer value).described "usize")
  | v => v.misfit "usize"

/-- The elements of an array, each fitted in turn. -/
def asSequence {α : Type} (fit : Value → Except Misfit α) (v : Value) : Except Misfit (List α) :=
  match v.elements? with
  | some elements => elements.mapM fit
  | none => v.misfit "a sequence"

/-- The key under which a date or time stands where a table is expected. -/
def dateTimeKey : String := "$__toml_private_datetime"

/-- One of several named cases: its name, or a table of an empty entry under its name. -/
def asVariant {α : Type} (known : List String) (ofName? : String → Option α) :
    Value → Except Misfit α
  | string text => named text
  | table [] => .error (.notSingle true)
  | table [(name, content)] => do
    let variant ← named name
    match content with
    | array [] | table [] | tables [] => .ok variant
    | array _ | table _ => .error (.notEmpty "table")
    | tables _ => .error (.notEmpty "array")
    | content => .error (.notTable content.typeName)
  | table _ => .error (.notSingle false)
  | _ => .error .notVariant
where
  named (name : String) : Except Misfit α :=
    match ofName? name with
    | some variant => .ok variant
    | none => .error (.unknownVariant name known)

end Value

/-! ## Small facts -/

example : (Misfit.unknownField "x" ["root", "types"]).message
    = "unknown field `x`, expected `root` or `types`" := by decide

end FieldTree.Toml
