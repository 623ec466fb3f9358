/-
# Walking through an arena

The two walks visit the nodes one at a time and keep what is still to be visited on a
stack. A pre-order walk replaces a node by its children; a post-order walk leaves the node
behind, marked, and puts its children before it.
-/
import FieldTree.Arena.Subtree

namespace FieldTree.Arena

variable {α : Type}

/-! ## Weights

The number of nodes that a stack still leads to, which every visit makes smaller. -/

/-- The number of nodes at and below a handle. -/
def weight (a : Arena α) (h : Handle) : Nat :=
  match a.subtree? h with
  | some tree => tree.size
  | none => 0

/-- The number of nodes at and below the handles of a stack. -/
def weightAll (a : Arena α) : List Handle → Nat
  | [] => 0
  | h :: stack => a.weight h + a.weightAll stack

theorem weightAll_append (a : Arena α) (upper lower : List Handle) :
    a.weightAll (upper ++ lower) = a.weightAll upper + a.weightAll lower := by
  induction upper with
  | nil => simp [weightAll]
  | cons h upper ih => simp [weightAll, ih, Nat.add_assoc]

/-- The weight of some handles is the number of nodes of their trees together. -/
theorem sizeAll_filterMap_subtree? (a : Arena α) (handles : List Handle) :
    Rose.sizeAll (handles.filterMap a.subtree?) = a.weightAll handles := by
  induction handles with
  | nil => rfl
  | cons h rest ih =>
    cases ht : a.subtree? h with
    | none => simp [ht, weightAll, weight, ih]
    | some t => simp [ht, weightAll, weight, ih, Rose.sizeAll]

theorem weight_eq_of_slot? {a : Arena α} {h : Handle} {s : Slot α} (hs : a.slot? h = some s) :
    a.weight h = a.weightAll s.children + 1 := by
  have hc : a.contains h = true := by rw [← slot?_isSome, hs]; rfl
  obtain ⟨-, hslot⟩ := slot?_eq_some hs
  have hi := (contains_iff.1 hc).2
  have hget : a.slots[h.index] = s := by
    rw [Array.getElem?_eq_getElem hi] at hslot
    exact Option.some.inj hslot
  rw [weight, subtree?, dif_pos hc]
  simp only [subtreeAt_eq, Rose.size, hget, sizeAll_filterMap_subtree?]

/-! ## Pre-order -/

/-- The next node of a pre-order walk, and the stack after it. Handles of no node of this
tree are passed over. -/
def nextPreorder (a : Arena α) : List Handle → Option (Handle × List Handle)
  | [] => none
  | h :: stack =>
    match a.slot? h with
    | some s => some (h, s.children ++ stack)
    | none => a.nextPreorder stack

theorem nextPreorder_weight {a : Arena α} {stack after : List Handle} {h : Handle}
    (hn : a.nextPreorder stack = some (h, after)) : a.weightAll after < a.weightAll stack := by
  induction stack with
  | nil => simp [nextPreorder] at hn
  | cons g stack ih =>
    simp only [nextPreorder] at hn
    split at hn
    · rename_i s hs
      simp only [Option.some.injEq, Prod.mk.injEq] at hn
      obtain ⟨rfl, rfl⟩ := hn
      rw [weightAll_append, weightAll, weight_eq_of_slot? hs]
      omega
    · have := ih hn
      rw [weightAll]
      omega

/-- The nodes that a pre-order walk visits from a stack on. -/
def visitPreorder (a : Arena α) (stack : List Handle) : List Handle :=
  match _h : a.nextPreorder stack with
  | none => []
  | some (h, after) => h :: a.visitPreorder after
termination_by a.weightAll stack
decreasing_by exact nextPreorder_weight _h

/-- All nodes, each before those below it. -/
def preorder (a : Arena α) : List Handle := a.visitPreorder [a.root]

/-- The values in pre-order. -/
def values (a : Arena α) : List α := a.preorder.filterMap a.value?

/-! ## Post-order -/

/-- The weight of an entry of a post-order walk: a node still to be opened counts twice. -/
def entryWeight (a : Arena α) (entry : Handle × Bool) : Nat :=
  if entry.2 then 1 else 2 * a.weight entry.1

/-- The weight of a stack of a post-order walk. -/
def stackWeight (a : Arena α) : List (Handle × Bool) → Nat
  | [] => 0
  | entry :: stack => a.entryWeight entry + a.stackWeight stack

/-- The stack after opening a node: its children, the node itself, and the rest. -/
def opening (h : Handle) (s : Slot α) (stack : List (Handle × Bool)) : List (Handle × Bool) :=
  s.children.map (·, false) ++ (h, true) :: stack

/-- Nodes put before a stack add twice their weight. -/
theorem stackWeight_unopened (a : Arena α) (handles : List Handle)
    (stack : List (Handle × Bool)) :
    a.stackWeight (handles.map (·, false) ++ stack)
      = 2 * a.weightAll handles + a.stackWeight stack := by
  induction handles with
  | nil => simp [weightAll]
  | cons h rest ih =>
    simp only [List.map_cons, List.cons_append, stackWeight, ih, entryWeight, weightAll,
      Bool.false_eq_true, ite_false]
    omega

/-- Opening a node makes the stack lighter by one. -/
theorem stackWeight_opening {a : Arena α} {h : Handle} {s : Slot α} (hs : a.slot? h = some s)
    (stack : List (Handle × Bool)) :
    a.stackWeight (opening h s stack) + 1 = a.stackWeight ((h, false) :: stack) := by
  simp only [opening, stackWeight_unopened, stackWeight, entryWeight, ite_true,
    Bool.false_eq_true, ite_false, weight_eq_of_slot? hs]
  omega

/-- An entry that is passed over makes the stack no heavier, and shorter. -/
theorem stackWeight_cons_lex (a : Arena α) (entry : Handle × Bool)
    (stack : List (Handle × Bool)) :
    Prod.Lex (· < ·) (· < ·) (a.stackWeight stack, stack.length)
      (a.stackWeight (entry :: stack), (entry :: stack).length) := by
  rcases Nat.eq_or_lt_of_le (Nat.le_add_left (a.stackWeight stack) (a.entryWeight entry)) with
    heq | hlt
  · rw [stackWeight, ← heq]
    exact Prod.Lex.right _ (Nat.lt_succ_self _)
  · exact Prod.Lex.left _ _ hlt

/-- The next node of a post-order walk, and the stack after it. An entry is a handle and
whether the nodes below it have been put on the stack. -/
def nextPostorder (a : Arena α) (stack : List (Handle × Bool)) :
    Option (Handle × List (Handle × Bool)) :=
  match stack with
  | [] => none
  | (h, opened) :: stack =>
    match _hs : a.slot? h with
    | none => a.nextPostorder stack
    | some s =>
      match opened with
      | true => some (h, stack)
      | false => a.nextPostorder (opening h s stack)
termination_by (a.stackWeight stack, stack.length)
decreasing_by
  · exact stackWeight_cons_lex a _ stack
  · exact Prod.Lex.left _ _ (Nat.lt_of_succ_le (Nat.le_of_eq (stackWeight_opening _hs stack)))

theorem nextPostorder_weight {a : Arena α} {stack after : List (Handle × Bool)} {h : Handle}
    (hn : a.nextPostorder stack = some (h, after)) :
    a.stackWeight after < a.stackWeight stack := by
  fun_induction nextPostorder a stack with
  | case1 => simp at hn
  | case2 g opened stack hs ih =>
    have := ih hn
    rw [stackWeight]; omega
  | case3 g stack s hs =>
    simp only [Option.some.injEq, Prod.mk.injEq] at hn
    obtain ⟨rfl, rfl⟩ := hn
    rw [stackWeight]; simp [entryWeight]
  | case4 g stack s hs ih =>
    have := ih hn
    have := stackWeight_opening hs stack
    omega

/-- The nodes that a post-order walk visits from a stack on. -/
def visitPostorder (a : Arena α) (stack : List (Handle × Bool)) : List Handle :=
  match _h : a.nextPostorder stack with
  | none => []
  | some (h, after) => h :: a.visitPostorder after
termination_by a.stackWeight stack
decreasing_by exact nextPostorder_weight _h

/-- All nodes, each after those below it. -/
def postorder (a : Arena α) : List Handle := a.visitPostorder [(a.root, false)]

end FieldTree.Arena
