/-
# Arenas

An arena keeps the nodes of one ordered tree in slots and hands out handles to them. A
handle carries the number of its tree, so that a handle of another tree is never taken
for one of this tree. Nodes are only added, each below a node that is there already;
hence links to children lead to newer slots and links to parents to older ones, and
following either kind comes to an end.
-/

namespace FieldTree

/-- A reference to a node: the number of its tree and its place in it. -/
structure Handle where
  tree : Nat
  index : Nat
  deriving DecidableEq, Repr

/-- The text of a handle in messages. No place is used twice, so all are of the first generation. -/
def Handle.text (h : Handle) : String :=
  "NodeId \x7b tree: " ++ toString h.tree ++ ", index: Index \x7b index: " ++ toString h.index
    ++ ", generation: 0 \x7d \x7d"

/-- A node as an arena keeps it: its value and its links. -/
structure Slot (α : Type) where
  value : α
  parent : Option Handle
  children : List Handle
  deriving Repr

/-- The slot with one more child at the end. -/
def Slot.withChild {α : Type} (s : Slot α) (child : Handle) : Slot α :=
  { s with children := s.children ++ [child] }

/-- The nodes of one ordered tree; the root is in the first slot. -/
structure Arena (α : Type) where
  /-- The number of the tree. -/
  id : Nat
  slots : Array (Slot α)
  rooted : 0 < slots.size
  /-- Children are nodes of this tree, newer than their parent. -/
  newer : ∀ (i : Nat) (s : Slot α), slots[i]? = some s → ∀ c ∈ s.children,
    c.tree = id ∧ i < c.index ∧ c.index < slots.size
  /-- A parent is a node of this tree, older than its child. -/
  older : ∀ (i : Nat) (s : Slot α), slots[i]? = some s → ∀ p, s.parent = some p →
    p.tree = id ∧ p.index < i

namespace Arena

variable {α : Type}

/-! ## Making trees -/

/-- The tree of a root alone. -/
def ofRoot (id : Nat) (value : α) : Arena α where
  id := id
  slots := #[⟨value, none, []⟩]
  rooted := by simp
  newer i s h c hc := by
    rcases i with _ | i
    · simp at h; subst h; simp at hc
    · simp at h
  older i s h p hp := by
    rcases i with _ | i
    · simp at h; subst h; simp at hp
    · simp at h

/-- The handle of the root. -/
def root (a : Arena α) : Handle := ⟨a.id, 0⟩

/-- The handle of the next node to be added. -/
def next (a : Arena α) : Handle := ⟨a.id, a.slots.size⟩

/-- The slot of a handle, if it belongs to this tree. -/
def slot? (a : Arena α) (h : Handle) : Option (Slot α) :=
  if h.tree = a.id then a.slots[h.index]? else none

/-- Whether a handle belongs to a node of this tree. -/
def contains (a : Arena α) (h : Handle) : Bool := h.tree == a.id && h.index < a.slots.size

/-- The slots after adding a node below `parent`: the parent's children grow at the end. -/
def slotsWith (a : Arena α) (parent : Handle) (value : α) : Array (Slot α) :=
  (a.slots.modify parent.index (·.withChild a.next)).push ⟨value, some parent, []⟩

theorem slotsWith_getElem? (a : Arena α) (parent : Handle) (value : α) (i : Nat) :
    (a.slotsWith parent value)[i]?
      = if i = a.slots.size then some ⟨value, some parent, []⟩
        else if i = parent.index then a.slots[i]?.map (·.withChild a.next)
        else a.slots[i]? := by
  simp only [slotsWith, Array.getElem?_push, Array.size_modify, Array.getElem?_modify]
  by_cases h : i = a.slots.size
  · simp [h]
  · by_cases hp : parent.index = i
    · simp [hp]
    · have : ¬ i = parent.index := fun e => hp e.symm
      simp [h, hp, this]

theorem size_slotsWith (a : Arena α) (parent : Handle) (value : α) :
    (a.slotsWith parent value).size = a.slots.size + 1 := by
  simp [slotsWith]

/-- Adds a node below `parent`, after the children it has. Fails, and changes nothing, when
`parent` is no node of this tree. -/
def addChild (a : Arena α) (parent : Handle) (value : α) : Option (Handle × Arena α) :=
  if h : parent.tree = a.id ∧ parent.index < a.slots.size then
    some (a.next,
      { id := a.id
        slots := a.slotsWith parent value
        rooted := by rw [size_slotsWith]; omega
        newer := by
          intro i s hs c hc
          rw [slotsWith_getElem?] at hs
          rw [size_slotsWith]
          split at hs
          · obtain rfl := Option.some.inj hs
            simp at hc
          · split at hs
            · obtain ⟨s', hs', rfl⟩ := Option.map_eq_some_iff.1 hs
              simp only [Slot.withChild, List.mem_append, List.mem_singleton] at hc
              rcases hc with hc | rfl
              · have := a.newer i s' hs' c hc
                exact ⟨this.1, this.2.1, by omega⟩
              · exact ⟨rfl, by simp only [next]; omega, by simp [next]⟩
            · have := a.newer i s hs c hc
              exact ⟨this.1, this.2.1, by omega⟩
        older := by
          intro i s hs p hp
          rw [slotsWith_getElem?] at hs
          split at hs
          · obtain rfl := Option.some.inj hs
            obtain rfl := Option.some.inj hp
            exact ⟨h.1, by omega⟩
          · split at hs
            · obtain ⟨s', hs', rfl⟩ := Option.map_eq_some_iff.1 hs
              exact a.older i s' hs' p hp
            · exact a.older i s hs p hp })
  else none

/-! ## Reading nodes -/

/-- The value of a node. -/
def value? (a : Arena α) (h : Handle) : Option α := (a.slot? h).map Slot.value

/-- The children of a node, in the order in which they were added. -/
def children (a : Arena α) (h : Handle) : List Handle :=
  match a.slot? h with
  | some s => s.children
  | none => []

/-- The parent of a node; the root has none. -/
def parent? (a : Arena α) (h : Handle) : Option Handle := (a.slot? h).bind Slot.parent

/-- The number of nodes. -/
def size (a : Arena α) : Nat := a.slots.size

/-- Whether there is no node at all, which is never so. -/
def isEmpty (a : Arena α) : Bool := a.slots.isEmpty

/-! ## Facts about one operation -/

theorem contains_iff {a : Arena α} {h : Handle} :
    a.contains h = true ↔ h.tree = a.id ∧ h.index < a.slots.size := by
  simp [contains]

theorem slot?_isSome {a : Arena α} {h : Handle} : (a.slot? h).isSome = a.contains h := by
  unfold slot? contains
  by_cases ht : h.tree = a.id <;> by_cases hi : h.index < a.slots.size <;> simp [ht, hi]

theorem slot?_eq_some {a : Arena α} {h : Handle} {s : Slot α} (hs : a.slot? h = some s) :
    h.tree = a.id ∧ a.slots[h.index]? = some s := by
  unfold slot? at hs
  split at hs
  · exact ⟨‹_›, hs⟩
  · simp at hs

theorem contains_root (a : Arena α) : a.contains a.root = true := by
  simp [contains, root, a.rooted]

theorem addChild_isSome {a : Arena α} {parent : Handle} {value : α} :
    (a.addChild parent value).isSome = a.contains parent := by
  rw [Bool.eq_iff_iff, contains_iff]
  unfold addChild
  split <;> simp_all

/-- A successful addition hands out the next handle. -/
theorem addChild_eq_some {a b : Arena α} {parent child : Handle} {value : α}
    (h : a.addChild parent value = some (child, b)) :
    a.contains parent = true ∧ child = a.next ∧ b.id = a.id ∧
      b.slots = a.slotsWith parent value := by
  unfold addChild at h
  split at h
  · rename_i hp
    simp only [Option.some.injEq, Prod.mk.injEq] at h
    obtain ⟨rfl, rfl⟩ := h
    exact ⟨contains_iff.2 hp, rfl, rfl, rfl⟩
  · simp at h

theorem size_addChild {a b : Arena α} {parent child : Handle} {value : α}
    (h : a.addChild parent value = some (child, b)) : b.size = a.size + 1 := by
  rw [size, size, (addChild_eq_some h).2.2.2, size_slotsWith]

end Arena

end FieldTree
