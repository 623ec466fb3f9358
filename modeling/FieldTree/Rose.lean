/-
# Rose trees

Ordered trees in which a node has any number of children, with the orders, measures and
maps that the rest of the library reads off them.
-/

namespace FieldTree

/-- A value and the trees below it, in order. -/
inductive Rose (α : Type) where
  | node (value : α) (children : List (Rose α))
  deriving Repr

namespace Rose

variable {α β : Type}

/-- The value at the root. -/
def value : Rose α → α
  | node value _ => value

/-- The trees below the root. -/
def children : Rose α → List (Rose α)
  | node _ children => children

/-! ## Number of nodes -/

mutual

/-- The number of nodes. -/
def size : Rose α → Nat
  | node _ children => sizeAll children + 1

/-- The number of nodes of some trees together. -/
def sizeAll : List (Rose α) → Nat
  | [] => 0
  | tree :: rest => tree.size + sizeAll rest

end

/-! ## Orders -/

mutual

/-- The values, each before those below it. -/
def preorder : Rose α → List α
  | node value children => value :: preorderAll children

/-- The values of some trees one after another, each before those below it. -/
def preorderAll : List (Rose α) → List α
  | [] => []
  | tree :: rest => tree.preorder ++ preorderAll rest

end

mutual

/-- The values, each after those below it. -/
def postorder : Rose α → List α
  | node value children => postorderAll children ++ [value]

/-- The values of some trees one after another, each after those below it. -/
def postorderAll : List (Rose α) → List α
  | [] => []
  | tree :: rest => tree.postorder ++ postorderAll rest

end

mutual

/-- The values without anything below them, from left to right. -/
def leaves : Rose α → List α
  | node value children =>
    match children with
    | [] => [value]
    | first :: rest => first.leaves ++ leavesAll rest

/-- The leaves of some trees one after another. -/
def leavesAll : List (Rose α) → List α
  | [] => []
  | tree :: rest => tree.leaves ++ leavesAll rest

end

/-! ## Depth -/

mutual

/-- The number of nodes on a longest path from the root down. -/
def depth : Rose α → Nat
  | node _ children => depthAll children + 1

/-- The greatest depth of some trees. -/
def depthAll : List (Rose α) → Nat
  | [] => 0
  | tree :: rest => max tree.depth (depthAll rest)

end

/-! ## Maps -/

mutual

/-- The tree of the same shape whose values are changed by a function. -/
def map (f : α → β) : Rose α → Rose β
  | node value children => node (f value) (mapAll f children)

/-- The trees of the same shapes whose values are changed by a function. -/
def mapAll (f : α → β) : List (Rose α) → List (Rose β)
  | [] => []
  | tree :: rest => tree.map f :: mapAll f rest

end

/-! ## The functions on lists of trees -/

theorem sizeAll_append (left right : List (Rose α)) :
    sizeAll (left ++ right) = sizeAll left + sizeAll right := by
  induction left with
  | nil => simp [sizeAll]
  | cons tree rest ih => simp [sizeAll, ih, Nat.add_assoc]

theorem preorderAll_eq_flatMap (trees : List (Rose α)) :
    preorderAll trees = trees.flatMap preorder := by
  induction trees with
  | nil => rfl
  | cons tree rest ih => simp [preorderAll, ih]

theorem postorderAll_eq_flatMap (trees : List (Rose α)) :
    postorderAll trees = trees.flatMap postorder := by
  induction trees with
  | nil => rfl
  | cons tree rest ih => simp [postorderAll, ih]

theorem leavesAll_eq_flatMap (trees : List (Rose α)) :
    leavesAll trees = trees.flatMap leaves := by
  induction trees with
  | nil => rfl
  | cons tree rest ih => simp [leavesAll, ih]

theorem mapAll_eq_map (f : α → β) (trees : List (Rose α)) :
    mapAll f trees = trees.map (map f) := by
  induction trees with
  | nil => rfl
  | cons tree rest ih => simp [mapAll, ih]

/-! ## One equation for each function -/

theorem preorder_node (value : α) (children : List (Rose α)) :
    (node value children).preorder = value :: children.flatMap preorder := by
  rw [preorder, preorderAll_eq_flatMap]

theorem postorder_node (value : α) (children : List (Rose α)) :
    (node value children).postorder = children.flatMap postorder ++ [value] := by
  rw [postorder, postorderAll_eq_flatMap]

theorem leaves_node (value : α) (children : List (Rose α)) :
    (node value children).leaves
      = if children = [] then [value] else children.flatMap leaves := by
  cases children with
  | nil => rfl
  | cons first rest => simp [leaves, leavesAll_eq_flatMap]

theorem map_node (f : α → β) (value : α) (children : List (Rose α)) :
    (node value children).map f = node (f value) (children.map (map f)) := by
  rw [map, mapAll_eq_map]

end Rose

end FieldTree
