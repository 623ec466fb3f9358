/-
# The tree that an arena holds

`Arena.tree` reads the rose tree off the links to children. Depth, leaves and the two
recursive orders are those of this tree.
-/
import FieldTree.Arena.Basic
import FieldTree.Rose

namespace FieldTree.Arena

variable {α : Type}

/-- The tree below the node in one slot: each node's handle and value. -/
def subtreeAt (a : Arena α) (i : Nat) (hi : i < a.slots.size) : Rose (Handle × α) :=
  .node (⟨a.id, i⟩, a.slots[i].value)
    (a.slots[i].children.attach.map fun c =>
      a.subtreeAt c.1.index (a.newer i a.slots[i] (by simp [hi]) c.1 c.2).2.2)
termination_by a.slots.size - i
decreasing_by
  exact Nat.sub_lt_sub_left hi (a.newer i a.slots[i] (by simp [hi]) c.1 c.2).2.1

/-- The tree below a node, if the handle belongs to this tree. -/
def subtree? (a : Arena α) (h : Handle) : Option (Rose (Handle × α)) :=
  if hc : a.contains h = true then some (a.subtreeAt h.index (contains_iff.1 hc).2) else none

/-- The whole tree. -/
def tree (a : Arena α) : Rose (Handle × α) := a.subtreeAt 0 a.rooted

/-- The number of nodes on a longest path from the root down. -/
def depth (a : Arena α) : Nat := a.tree.depth

/-- The nodes without children, from left to right. -/
def leaves (a : Arena α) : List Handle := a.tree.leaves.map Prod.fst

/-! ## Facts about one step -/

/-- A partial function that has a value on a list maps it like a total one. -/
theorem filterMap_eq_attach_map {γ δ : Type} {f : γ → Option δ} {l : List γ}
    {g : (c : γ) → c ∈ l → δ} (h : ∀ c (hc : c ∈ l), f c = some (g c hc)) :
    l.filterMap f = l.attach.map fun c => g c.1 c.2 := by
  have : l.filterMap f = (l.attach.map Subtype.val).filterMap f := by
    rw [List.attach_map_subtype_val]
  rw [this, List.filterMap_map, ← List.filterMap_eq_map]
  congr 1
  funext c
  simp [h c.1 c.2]

/-- The tree below a node consists of the node and the trees below its children. -/
theorem subtreeAt_eq (a : Arena α) (i : Nat) (hi : i < a.slots.size) :
    a.subtreeAt i hi = .node (⟨a.id, i⟩, a.slots[i].value)
      (a.slots[i].children.filterMap a.subtree?) := by
  rw [subtreeAt]
  congr 1
  refine (filterMap_eq_attach_map (g := fun c hc =>
    a.subtreeAt c.index (a.newer i a.slots[i] (by simp [hi]) c hc).2.2) ?_).symm
  intro c hc
  have hn := a.newer i a.slots[i] (by simp [hi]) c hc
  rw [subtree?, dif_pos (contains_iff.2 ⟨hn.1, hn.2.2⟩)]

theorem subtree?_isSome {a : Arena α} {h : Handle} : (a.subtree? h).isSome = a.contains h := by
  unfold subtree?
  split <;> simp_all

end FieldTree.Arena
