/-
# Trees under settings

The tree of a root type as the settings of a run want it.
-/
import FieldTree.Decomposition
import FieldTree.Lens
import FieldTree.Settings.Basic

namespace FieldTree

/-- The root type: the one asked for, or else the one that is declared. -/
def chooseRoot (asked declared : Option String) : Except Failure String :=
  match asked <|> declared with
  | some root => .ok root
  | none => .error .missingRootType

namespace Settings

/-- How the settings want types to be decomposed. -/
def decomposition (s : Settings) (ctx : Introspection) : Except Failure Decomposition := do
  return ⟨ctx, ← Handler.chain s.handlers, some s.maxDepth⟩

/-- The tree of a root type. -/
def tree (s : Settings) (ctx : Introspection) (root : String) :
    Except Failure (Arena Node) :=
  if (ctx.symbols root).isEmpty then .error (.unknownRootType root)
  else do ((← s.decomposition ctx).tree (.root root)).outcome

end Settings

end FieldTree
