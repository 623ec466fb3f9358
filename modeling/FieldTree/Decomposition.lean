/-
# Decomposition of a type

A type is decomposed into a tree of its fields: the members of the first symbol that a
node's target stands for become its children, each made by the first handler that
recognises it, and belong to that symbol. Only properties take part. The tree grows in
pre-order inside one arena.

A field at level `n + 1` below a limit of `n` makes the decomposition fail. Without a
limit, fields count as endless below the horizon of the introspection; the recursion that
has no such horizon, and may go on for ever, is the relation `Decomposition.Ends`.
-/
import FieldTree.Arena.Path
import FieldTree.Handler
import FieldTree.Traced

namespace FieldTree

/-- How types are decomposed. -/
structure Decomposition where
  ctx : Introspection
  handlers : List Handler
  /-- The deepest level that a field may stand at; the root is at level zero. -/
  maxDepth : Option Nat

namespace Decomposition

/-- The node for a property of a symbol: made by the handlers, owned by the symbol. -/
def child (p : Decomposition) (parent : Node) (symbol : String) (d : Declaration) : Node :=
  { Handler.node p.ctx p.handlers parent d with owner := some symbol }

/-- How many levels of fields there may be. -/
def levels (p : Decomposition) : Nat := p.maxDepth.getD p.ctx.horizon

/-- The failure for a field below the last level. -/
def tooDeep (p : Decomposition) (path : String) : Failure :=
  match p.maxDepth with
  | some maxDepth => .depthExceeded path maxDepth
  | none => .endless path

/-- The names on the path to a node, with points between them. -/
def pathText (a : Arena Node) (h : Handle) : String :=
  ".".intercalate (((a.path h).filterMap a.value?).map Node.name)

/-- Adds one field below a node. -/
def addField (p : Decomposition) (h : Handle) (parent : Node) (symbol : String) (d : Declaration)
    (a : Arena Node) : Traced (Handle × Arena Node) :=
  match a.addChild h (p.child parent symbol d) with
  | some added => .ok added
  | none => .fail (.nodeNotFound h.text)

/-- Adds the properties of a symbol below a node and goes on below each of them. -/
def addFields (p : Decomposition) (deeper : Option (Handle → Arena Node → Traced (Arena Node)))
    (h : Handle) (parent : Node) (symbol : String) (a : Arena Node) :
    List Declaration → Traced (Arena Node)
  | [] => .ok a
  | d :: rest =>
    match deeper with
    | none => .fail (p.tooDeep (pathText a h))
    | some grow => do
      let (field, a) ← p.addField h parent symbol d a
      let a ← grow field a
      p.addFields deeper h parent symbol a rest

/-- Grows the tree below a node by a number of levels. -/
def grow (p : Decomposition) (levels : Nat) (h : Handle) (a : Arena Node) : Traced (Arena Node) :=
  match a.value? h with
  | none => .fail (.nodeNotFound h.text)
  | some node =>
    match node.symbols p.ctx with
    | [] => .ok a
    | symbol :: _ => do
      Traced.note symbol
      match p.ctx.members symbol with
      | none => .ok a
      | some members =>
        let deeper := match levels with
          | 0 => none
          | levels + 1 => some (p.grow levels)
        p.addFields deeper h node symbol a (Member.properties members)

/-- The tree of a root node. -/
def tree (p : Decomposition) (root : Node) : Traced (Arena Node) :=
  let planted := Arena.ofRoot 0 root
  p.grow p.levels planted.root planted

end Decomposition

end FieldTree
