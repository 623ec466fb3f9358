/-
# The format of settings files

A settings file is a TOML document with a list of `handlers`, a number `max_depth` and a
name `id_field`, each of which may be missing. Other keys mean nothing here.
-/
import FieldTree.Settings.Basic
import FieldTree.Toml.Misfit
import FieldTree.Toml.Writer

namespace FieldTree

open Toml (Entries Misfit Value)

namespace Overlay

/-- Reads one more key. -/
def add (layer : Overlay) (entry : String × Value) : Except Misfit Overlay :=
  match entry.1 with
  | "handlers" => return { layer with handlers := some (← entry.2.asSequence Value.asString) }
  | "max_depth" => return { layer with maxDepth := some (← entry.2.asNatural) }
  | "id_field" => return { layer with idField := some (← entry.2.asString) }
  | _ => .ok layer

/-- The layer that the entries of a document state. -/
def ofEntries (entries : Entries) : Except Misfit Overlay := entries.foldlM add .empty

/-- The layer that a text states. -/
def parse (text : String) : Except Toml.ReadError Overlay := Toml.readAs ofEntries text

end Overlay

namespace Settings

/-- The greatest number that a settings file can hold. -/
def greatestNumber : Nat := 0x7fffffffffffffff

/-- The settings as the text of a settings file. -/
def toToml (s : Settings) : Except Failure String :=
  if greatestNumber < s.maxDepth then
    .error (.config "serialize config: out-of-range value for u64 type")
  else
    .ok (String.ofList
      (Toml.writeLine "handlers" (Toml.writeStrings s.handlers)
        ++ Toml.writeLine "max_depth" (Decimal.digits s.maxDepth)
        ++ Toml.writeLine "id_field" (Toml.writeString s.idField)))

/-- A settings file that states nothing and explains everything. -/
def template : String :=
  "\n".intercalate
    ["# typetree configuration",
     "#",
     "# Locations (by precedence, lowest to highest):",
     "#   Global: ~/.config/typetree/typetree.toml",
     "#   Local:  file passed with --config",
     "#   Env:    TYPETREE_* environment variables (e.g. TYPETREE_HANDLERS=array,object)",
     "",
     "# Node handlers in priority order; the first handler that recognizes a field wins.",
     "# Known handlers: array, record, object",
     "# handlers = [\"array\", \"record\", \"object\"]",
     "",
     "# Deepest level a field may be decomposed to (guards self-referential types)",
     "# max_depth = 32",
     "",
     "# Key field used in generated record lenses",
     "# id_field = \"id\"",
     ""]

end Settings

end FieldTree
