/-
# Forests

Several arenas side by side, numbered in the order in which they were planted. Since every
handle carries the number of its tree, a handle is at home in one tree only.
-/
import FieldTree.Arena.Basic

namespace FieldTree

/-- Arenas whose numbers are their places. -/
structure Forest (α : Type) where
  trees : Array (Arena α)
  numbered : ∀ (i : Nat) (a : Arena α), trees[i]? = some a → a.id = i

namespace Forest

variable {α : Type}

/-- No tree at all. -/
def empty : Forest α where
  trees := #[]
  numbered i a h := by simp at h

/-- The tree of a number. -/
def tree? (f : Forest α) (number : Nat) : Option (Arena α) := f.trees[number]?

/-- One more tree, of a root alone. -/
def plant (f : Forest α) (value : α) : Forest α where
  trees := f.trees.push (.ofRoot f.trees.size value)
  numbered i a h := by
    rw [Array.getElem?_push] at h
    split at h
    · obtain rfl := Option.some.inj h
      rename_i hi
      exact hi.symm
    · exact f.numbered i a h

/-- Adds a node to one tree. Fails when the tree has no such parent. -/
def addChild (f : Forest α) (number : Nat) (parent : Handle) (value : α) :
    Option (Handle × Forest α) :=
  match ht : f.trees[number]? with
  | none => none
  | some a =>
    match hc : a.addChild parent value with
    | none => none
    | some (child, b) =>
      some (child,
        { trees := f.trees.setIfInBounds number b
          numbered := by
            intro i t h
            rw [Array.getElem?_setIfInBounds] at h
            split at h
            · split at h
              · obtain rfl := Option.some.inj h
                rename_i hi _
                rw [(Arena.addChild_eq_some hc).2.2.1, ← hi]
                exact f.numbered number a ht
              · simp at h
            · exact f.numbered i t h })

end Forest

end FieldTree
