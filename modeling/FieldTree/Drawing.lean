/-
# Drawings of trees

A tree is drawn with one line for each node in pre-order. The lines that lead to a node
stand before its label, four characters for each level above it.
-/
import FieldTree.Arena.Subtree
import FieldTree.Node

namespace FieldTree

namespace Drawing

/-- The branch to a child, which is the last of its siblings or not. -/
def branch (last : Bool) : String := if last then "└── " else "├── "

/-- What goes on below the branch to a child: the line to its later siblings, if any. -/
def trunk (last : Bool) : String := if last then "    " else "│   "

mutual

/-- The lines of the nodes below the root of a tree, behind what leads to the root. -/
def below (before : String) : Rose String → List String
  | .node _ children => siblings before children

/-- The lines of sibling trees. -/
def siblings (before : String) : List (Rose String) → List String
  | [] => []
  | tree :: rest =>
    (before ++ branch rest.isEmpty ++ tree.value) ::
      (below (before ++ trunk rest.isEmpty) tree ++ siblings before rest)

end

/-- The lines of a tree. -/
def lines (tree : Rose String) : List String := tree.value :: below "" tree

/-- The text of a tree: its lines, each ended by a line feed. -/
def text (tree : Rose String) : String := String.join ((lines tree).map (· ++ "\n"))

end Drawing

/-- The labels of a field tree, in its shape. -/
def Arena.labels (a : Arena Node) : Rose String := a.tree.map fun entry => entry.2.label

/-- The drawing of a field tree. -/
def Arena.drawing (a : Arena Node) : String := Drawing.text a.labels

namespace Drawing

/-! ## Small facts -/

example : text (.node "A" [.node "b" [.node "c" []], .node "d" []])
    = "A\n├── b\n│   └── c\n└── d\n" := by decide +kernel

end Drawing

end FieldTree
