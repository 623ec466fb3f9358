/-
# Paths in an arena

The path to a node is read off the links to parents, from the node up to the root.
-/
import FieldTree.Arena.Basic

namespace FieldTree.Arena

variable {α : Type}

/-- The nodes from a node up to the root; none for a handle of another tree. -/
def ancestry (a : Arena α) (h : Handle) : List Handle :=
  match _hs : a.slot? h with
  | none => []
  | some s =>
    h :: match _hp : s.parent with
      | none => []
      | some p => a.ancestry p
termination_by h.index
decreasing_by exact (a.older h.index s (slot?_eq_some _hs).2 p _hp).2

/-- The nodes from the root down to a node; none for a handle of another tree. -/
def path (a : Arena α) (h : Handle) : List Handle := (a.ancestry h).reverse

/-! ## Facts about one step -/

theorem ancestry_of_slot?_eq_none {a : Arena α} {h : Handle} (hs : a.slot? h = none) :
    a.ancestry h = [] := by
  rw [ancestry]; split <;> simp_all

theorem ancestry_of_slot? {a : Arena α} {h : Handle} {s : Slot α} (hs : a.slot? h = some s) :
    a.ancestry h = h :: (s.parent.elim [] a.ancestry) := by
  rw [ancestry]
  split
  · simp_all
  · rename_i s' hs'
    obtain rfl := Option.some.inj (hs.symm.trans hs')
    congr 1
    split <;> simp_all

end FieldTree.Arena
