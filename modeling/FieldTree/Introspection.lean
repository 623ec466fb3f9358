/-
# Introspection

What the decomposition of a type asks about names: the symbols that a name stands for,
and the members of a symbol. A schema answers both questions; so does a plain pair of
tables.
-/
import FieldTree.Declaration

namespace FieldTree

/-- Answers about named types. -/
structure Introspection where
  /-- The symbols that a type name stands for; none for a name that is not known. -/
  symbols : String → List String
  /-- The members of a symbol, if it is decomposed at all. -/
  members : String → Option (List Member)
  /-- How many levels of fields are looked at before a tree counts as endless: where
  answers depend on the name alone, the number of symbols that have members. -/
  horizon : Nat

namespace Introspection

/-- The value that a table of pairs holds under a key: that of the first pair. -/
def lookup {α : Type} (table : List (String × α)) (key : String) : Option α :=
  (table.find? (·.1 == key)).map Prod.snd

/-- Answers from two tables. A name that is missing has no symbols and no members. -/
def ofTables (symbols : List (String × List String))
    (members : List (String × Option (List Member))) : Introspection where
  symbols name := (lookup symbols name).getD []
  members symbol := (lookup members symbol).getD none
  horizon := members.length

end Introspection

end FieldTree
