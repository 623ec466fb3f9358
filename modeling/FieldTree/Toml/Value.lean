/-
# Values of a TOML document

A document is a table of values under keys, in the order in which the keys first appear.
-/
import FieldTree.Decimal.Binary64

namespace FieldTree.Toml

/-- A value in a document. -/
inductive Value where
  | string (text : String)
  | integer (value : Int)
  | float (value : Decimal.Binary64)
  | boolean (value : Bool)
  /-- A date, a time of day or both, as it is written in full. -/
  | dateTime (text : String)
  | array (elements : List Value)
  | table (entries : List (String × Value))
  /-- An array of tables, each under a header of its own. -/
  | tables (elements : List (List (String × Value)))
  deriving Repr, Inhabited

/-- The entries of a table, in order. -/
abbrev Entries := List (String × Value)

/-- The elements of an array, however it is written. -/
def Value.elements? : Value → Option (List Value)
  | array elements => some elements
  | tables elements => some (elements.map table)
  | _ => none

end FieldTree.Toml
