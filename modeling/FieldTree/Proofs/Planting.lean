/-
# Planting a tree in an arena

Adding the nodes of a tree one by one, each before those below it, makes an arena that holds
exactly that tree.  `Arena.addTree` is the sequence of additions, `Rose.numbered` the tree with
the handles that the additions hand out.

* `Arena.addTrees_added` : what changes when trees are added below a node, and that all else
  stays as it was;
* `Arena.tree_ofTree`, `Arena.size_ofTree` : a planted arena holds the tree and nothing else;
* `Arena.preorder_eq` : the walk through an arena visits the nodes of its tree in pre-order;
* `Arena.Extends.trail` : additions do not change the values on the path to a node.
-/
import FieldTree.Arena.Path
import FieldTree.Arena.Walk
import FieldTree.Proofs.Unfolding

namespace FieldTree

/-! ## Numbered trees -/

namespace Rose

variable {α : Type}

mutual

/-- The tree with the handles of one tree number, in pre-order from `i` on. -/
def numbered (id i : Nat) : Rose α → Rose (Handle × α)
  | node value children => node (⟨id, i⟩, value) (numberedAll id (i + 1) children)

/-- The trees with handles, each going on where the one before it ends. -/
def numberedAll (id i : Nat) : List (Rose α) → List (Rose (Handle × α))
  | [] => []
  | tree :: rest => tree.numbered id i :: numberedAll id (i + tree.size) rest

end

/-- The handle at the root of a numbered tree. -/
def handle (t : Rose (Handle × α)) : Handle := t.value.1

theorem handle_numbered (id i : Nat) (t : Rose α) : (t.numbered id i).handle = ⟨id, i⟩ := by
  cases t
  rfl

theorem size_pos (t : Rose α) : 0 < t.size := by
  cases t
  rw [size]
  omega

/-- Rows of trees are numbered one after the other. -/
theorem numberedAll_append (id i : Nat) (ts us : List (Rose α)) :
    numberedAll id i (ts ++ us) = numberedAll id i ts ++ numberedAll id (i + sizeAll ts) us := by
  induction ts generalizing i with
  | nil => rfl
  | cons t ts ih =>
    rw [List.cons_append, numberedAll, numberedAll, ih, sizeAll, List.cons_append, Nat.add_assoc]

/-- The handles of a row of numbered trees lie within the numbers that the row takes. -/
theorem handle_of_mem_numberedAll {id i : Nat} {ts : List (Rose α)} {t : Rose (Handle × α)}
    (ht : t ∈ numberedAll id i ts) :
    ∃ j, t.handle = ⟨id, j⟩ ∧ i ≤ j ∧ j < i + sizeAll ts := by
  induction ts generalizing i with
  | nil => simp [numberedAll] at ht
  | cons u us ih =>
    rw [numberedAll, List.mem_cons] at ht
    rw [sizeAll]
    rcases ht with rfl | ht
    · have := size_pos u
      exact ⟨i, handle_numbered id i u, le_rfl, by omega⟩
    · obtain ⟨j, hj, hle, hlt⟩ := ih ht
      exact ⟨j, hj, by omega, by omega⟩

/-- Without the handles, a numbered tree is the tree itself. -/
theorem map_snd_numbered (id i : Nat) (t : Rose α) : (t.numbered id i).map Prod.snd = t := by
  induction t generalizing i with
  | node value children ih =>
    -- The numbers of a row depend on what stands before it, so this is said of any start.
    have hrow : ∀ (ts : List (Rose α)) (j : Nat), (∀ t ∈ ts, t ∈ children) →
        mapAll Prod.snd (numberedAll id j ts) = ts := by
      intro ts
      induction ts with
      | nil => intro j _; rfl
      | cons t ts ihs =>
        intro j hmem
        rw [List.forall_mem_cons] at hmem
        rw [numberedAll, mapAll, ih t hmem.1, ihs _ hmem.2]
    rw [numbered, map, hrow children _ fun t ht => ht]

/-- The handles of a numbered tree, in pre-order, are those from `i` on. -/
theorem preorder_numbered (id i : Nat) (t : Rose α) :
    (t.numbered id i).preorder.map Prod.fst = (List.range' i t.size).map (Handle.mk id) := by
  induction t generalizing i with
  | node value children ih =>
    have hrow : ∀ (ts : List (Rose α)) (j : Nat), (∀ t ∈ ts, t ∈ children) →
        (preorderAll (numberedAll id j ts)).map Prod.fst
          = (List.range' j (sizeAll ts)).map (Handle.mk id) := by
      intro ts
      induction ts with
      | nil => intro j _; rfl
      | cons t ts ihs =>
        intro j hmem
        rw [List.forall_mem_cons] at hmem
        rw [numberedAll, preorderAll, List.map_append, ih t hmem.1, ihs _ hmem.2, sizeAll,
          ← List.map_append, ← List.range'_append_1]
    rw [numbered, preorder, List.map_cons, hrow children _ fun t ht => ht, size, List.range'_succ]
    rfl

end Rose

namespace Arena

variable {α : Type} {a b c : Arena α}

/-! ## Slots and trees below them -/

/-- A handle of this tree is the tree's number and a place. -/
theorem eq_mk_of_contains {h : Handle} (hc : a.contains h = true) : h = ⟨a.id, h.index⟩ := by
  rw [← (contains_iff.1 hc).1]

theorem slot?_of_tree_eq {h : Handle} (htree : h.tree = a.id) : a.slot? h = a.slots[h.index]? := by
  rw [slot?, if_pos htree]

theorem slot?_mk (i : Nat) : a.slot? ⟨a.id, i⟩ = a.slots[i]? :=
  slot?_of_tree_eq rfl

/-- The tree below a node is the node with the trees below its children. -/
theorem subtree?_of_slot? {h : Handle} {s : Slot α} (hs : a.slot? h = some s) :
    a.subtree? h = some (.node (h, s.value) (s.children.filterMap a.subtree?)) := by
  have hc : a.contains h = true := by rw [← slot?_isSome, hs]; rfl
  have hi := (contains_iff.1 hc).2
  have hget : a.slots[h.index] = s := by
    rw [eq_mk_of_contains hc, slot?_mk, Array.getElem?_eq_getElem hi] at hs
    exact Option.some.inj hs
  rw [subtree?, dif_pos hc, subtreeAt_eq, hget, ← eq_mk_of_contains hc]

theorem subtree?_of_slot?_eq_none {h : Handle} (hs : a.slot? h = none) : a.subtree? h = none := by
  rw [← Option.not_isSome_iff_eq_none, subtree?_isSome, ← slot?_isSome, hs]
  exact Bool.false_ne_true

theorem subtree?_root (a : Arena α) : a.subtree? a.root = some a.tree := by
  rw [subtree?, dif_pos (contains_root a)]
  rfl

/-- Handles that stand for some trees lead back to these trees. -/
theorem filterMap_subtree? {ts : List (Rose (Handle × α))}
    (h : ∀ t ∈ ts, a.subtree? t.handle = some t) :
    (ts.map Rose.handle).filterMap a.subtree? = ts := by
  rw [List.filterMap_map]
  calc ts.filterMap (a.subtree? ∘ Rose.handle) = ts.filterMap some := List.filterMap_congr h
    _ = ts := List.filterMap_some

/-- The tree below a node depends only on the slots from the node's own on. -/
theorem subtree?_congr (hid : b.id = a.id) (i : Nat)
    (hsame : ∀ j, i ≤ j → j < a.slots.size → b.slots[j]? = a.slots[j]?)
    (hi : i < a.slots.size) : b.subtree? ⟨a.id, i⟩ = a.subtree? ⟨a.id, i⟩ := by
  have hs : a.slot? ⟨a.id, i⟩ = some a.slots[i] := by
    rw [slot?_mk, Array.getElem?_eq_getElem hi]
  have hs' : b.slot? ⟨a.id, i⟩ = some a.slots[i] := by
    rw [← hid, slot?_mk, hsame i le_rfl hi, Array.getElem?_eq_getElem hi]
  rw [subtree?_of_slot? hs, subtree?_of_slot? hs']
  congr 2
  apply List.filterMap_congr
  intro g hg
  obtain ⟨htree, hnewer, hg'⟩ := a.newer i _ (Array.getElem?_eq_getElem hi) g hg
  have hrec := subtree?_congr hid g.index (fun j hj => hsame j (by omega)) hg'
  rwa [← htree] at hrec
termination_by a.slots.size - i

/-! ## One addition -/

/-- A node of the tree takes a further child, whose handle is the next one. -/
theorem exists_addChild {h : Handle} (hc : a.contains h = true) (value : α) :
    ∃ b, a.addChild h value = some (a.next, b) := by
  have hsome : (a.addChild h value).isSome = true := by rw [addChild_isSome, hc]
  obtain ⟨⟨g, b⟩, hb⟩ := Option.isSome_iff_exists.1 hsome
  exact ⟨b, by rw [hb, (addChild_eq_some hb).2.1]⟩

/-- The slots after an addition. -/
theorem addChild_slots {h g : Handle} {value : α} (hadd : a.addChild h value = some (g, b))
    (i : Nat) :
    b.slots[i]? = if i = a.slots.size then some ⟨value, some h, []⟩
      else if i = h.index then a.slots[i]?.map (·.withChild a.next) else a.slots[i]? := by
  rw [(addChild_eq_some hadd).2.2.2, slotsWith_getElem?]

/-- A node with a value is a node of the tree. -/
theorem contains_of_value? {h : Handle} {x : α} (hx : a.value? h = some x) :
    a.contains h = true := by
  rw [← slot?_isSome, ← Option.isSome_map, ← value?, hx]
  rfl

theorem slot?_addChild {h g : Handle} {value : α} (hadd : a.addChild h value = some (g, b)) :
    b.slot? g = some ⟨value, some h, []⟩ := by
  have hslots := addChild_slots hadd a.slots.size
  obtain ⟨-, rfl, hid, -⟩ := addChild_eq_some hadd
  rw [slot?_of_tree_eq hid.symm]
  rwa [if_pos rfl] at hslots

/-- A new node has the value that it was made with. -/
theorem value?_addChild {h g : Handle} {value : α} (hadd : a.addChild h value = some (g, b)) :
    b.value? g = some value := by
  rw [value?, slot?_addChild hadd]
  rfl

theorem contains_addChild {h g : Handle} {value : α} (hadd : a.addChild h value = some (g, b)) :
    b.contains g = true := by
  rw [← slot?_isSome, slot?_addChild hadd]
  rfl

/-! ## Adding whole trees -/

mutual

/-- Adds the nodes of a tree below a node, each before those below it. -/
def addTree (a : Arena α) (h : Handle) : Rose α → Arena α
  | .node value children =>
    match a.addChild h value with
    | some (child, b) => b.addTrees child children
    | none => a

/-- Adds the nodes of some trees below a node, one tree after the other. -/
def addTrees (a : Arena α) (h : Handle) : List (Rose α) → Arena α
  | [] => a
  | tree :: rest => (a.addTree h tree).addTrees h rest

end

/-- The arena of a tree. -/
def ofTree (id : Nat) (t : Rose α) : Arena α :=
  (ofRoot id t.value).addTrees (ofRoot id t.value).root t.children

theorem addTree_node {h g : Handle} {value : α} (hadd : a.addChild h value = some (g, b))
    (children : List (Rose α)) :
    a.addTree h (.node value children) = b.addTrees g children := by
  rw [addTree, hadd]

/-- A tree is added by adding its root, and below that what stands below the root. -/
theorem addTrees_children {h g : Handle} {t : Rose α} (hadd : a.addChild h t.value = some (g, b)) :
    b.addTrees g t.children = a.addTree h t := by
  obtain ⟨value, children⟩ := t
  exact (addTree_node hadd children).symm

/-- What has changed when trees were added below a node: they stand after the children that it
had, and every other slot is as it was. -/
structure Added (a : Arena α) (h : Handle) (ts : List (Rose α)) (b : Arena α) : Prop where
  id_eq : b.id = a.id
  size_eq : b.slots.size = a.slots.size + Rose.sizeAll ts
  others : ∀ i < a.slots.size, i ≠ h.index → b.slots[i]? = a.slots[i]?
  here : b.slots[h.index]? = a.slots[h.index]?.map fun s => { s with
    children := s.children ++ (Rose.numberedAll a.id a.slots.size ts).map Rose.handle }
  below : ∀ t ∈ Rose.numberedAll a.id a.slots.size ts, b.subtree? t.handle = some t

namespace Added

variable {h : Handle} {ts us : List (Rose α)}

/-- Adding no tree changes nothing. -/
theorem nil (a : Arena α) (h : Handle) : Added a h [] a where
  id_eq := rfl
  size_eq := rfl
  others _ _ _ := rfl
  here := by
    cases a.slots[h.index]? with
    | none => rfl
    | some s => simp [Rose.numberedAll]
  below t ht := by simp [Rose.numberedAll] at ht

theorem contains {g : Handle} (hab : Added a h ts b) (hg : a.contains g = true) :
    b.contains g = true := by
  rw [contains_iff] at hg ⊢
  rw [hab.id_eq, hab.size_eq]
  exact ⟨hg.1, by omega⟩

/-- The trees at later places than the node are as they were. -/
theorem subtree?_eq (hab : Added a h ts b) {i : Nat} (hlt : h.index < i)
    (hi : i < a.slots.size) : b.subtree? ⟨a.id, i⟩ = a.subtree? ⟨a.id, i⟩ :=
  subtree?_congr hab.id_eq i (fun j hj hsize => hab.others j hsize (by omega)) hi

/-- What was added below a node stays when further trees are added there. -/
theorem append (hc : a.contains h = true) (hab : Added a h ts b) (hbc : Added b h us c) :
    Added a h (ts ++ us) c where
  id_eq := by rw [hbc.id_eq, hab.id_eq]
  size_eq := by
    rw [hbc.size_eq, hab.size_eq, Rose.sizeAll_append, Nat.add_assoc]
  others i hi hne := by
    have hi' : i < b.slots.size := by rw [hab.size_eq]; omega
    rw [hbc.others i hi' hne, hab.others i hi hne]
  here := by
    rw [hbc.here, hab.here, hab.id_eq, hab.size_eq, Rose.numberedAll_append, Option.map_map]
    congr 1
    funext s
    rw [Function.comp, List.map_append, List.append_assoc]
  below t ht := by
    rw [Rose.numberedAll_append, List.mem_append] at ht
    rcases ht with ht | ht
    · -- A tree of the first row has later handles than the node and earlier ones than the second.
      obtain ⟨j, hj, hle, hlt⟩ := Rose.handle_of_mem_numberedAll ht
      rw [← hab.below t ht, hj, ← hab.id_eq]
      have := (contains_iff.1 hc).2
      exact hbc.subtree?_eq (by omega) (by rw [hab.size_eq]; exact hlt)
    · rw [← hab.id_eq, ← hab.size_eq] at ht
      exact hbc.below t ht

/-- A node and what was added below it are a tree that was added. -/
theorem node {g : Handle} {value : α} (hadd : a.addChild h value = some (g, b))
    (hbc : Added b g ts c) : Added a h [.node value ts] c := by
  obtain ⟨hc, rfl, hid, hslots⟩ := addChild_eq_some hadd
  have hsize : b.slots.size = a.slots.size + 1 := by rw [hslots, size_slotsWith]
  have hh : h.index < a.slots.size := (contains_iff.1 hc).2
  have hold (i : Nat) (hi : i < a.slots.size) : c.slots[i]? = b.slots[i]? :=
    hbc.others i (by omega) (by rw [next]; exact Nat.ne_of_lt hi)
  refine ⟨by rw [hbc.id_eq, hid], ?_, ?_, ?_, ?_⟩
  · rw [hbc.size_eq, hsize, Rose.sizeAll, Rose.size, Rose.sizeAll]
    omega
  · intro i hi hne
    rw [hold i hi, addChild_slots hadd, if_neg (Nat.ne_of_lt hi), if_neg hne]
  · rw [hold _ hh, addChild_slots hadd, if_neg (Nat.ne_of_lt hh), if_pos rfl]
    rfl
  · intro t ht
    rw [Rose.numberedAll, Rose.numberedAll, List.mem_singleton, Rose.numbered] at ht
    subst ht
    -- The new node's slot holds the handles of the trees added below it, and nothing else.
    have hslot : c.slot? a.next = some ⟨value, some h,
        (Rose.numberedAll a.id (a.slots.size + 1) ts).map Rose.handle⟩ := by
      have hhere := hbc.here
      rw [addChild_slots hadd, hid, hsize] at hhere
      rw [slot?_of_tree_eq (by rw [hbc.id_eq, hid]; rfl)]
      simpa [next] using hhere
    have hbelow := hbc.below
    rw [hid, hsize] at hbelow
    show c.subtree? a.next = _
    rw [subtree?_of_slot? hslot, filterMap_subtree? hbelow]
    rfl

end Added

/-- Adding some trees does what it should if adding each of them does. -/
theorem addTrees_added_of {ts : List (Rose α)}
    (hone : ∀ t ∈ ts, ∀ (a : Arena α) (h : Handle), a.contains h = true →
      Added a h [t] (a.addTree h t)) {h : Handle} (hc : a.contains h = true) :
    Added a h ts (a.addTrees h ts) := by
  induction ts generalizing a with
  | nil => exact .nil a h
  | cons t ts ih =>
    rw [List.forall_mem_cons] at hone
    have hfirst : Added a h [t] (a.addTree h t) := hone.1 a h hc
    have hrest : Added (a.addTree h t) h ts ((a.addTree h t).addTrees h ts) :=
      ih hone.2 (hfirst.contains hc)
    rw [addTrees]
    exact hfirst.append hc hrest

theorem addTree_added (t : Rose α) {h : Handle} (hc : a.contains h = true) :
    Added a h [t] (a.addTree h t) := by
  induction t generalizing a h with
  | node value children ih =>
    obtain ⟨b, hadd⟩ := exists_addChild hc value
    rw [addTree_node hadd]
    exact .node hadd (addTrees_added_of (fun t ht _ _ hc => ih t ht hc) (contains_addChild hadd))

/-- **Adding trees below a node adds them and changes nothing else.** -/
theorem addTrees_added (ts : List (Rose α)) {h : Handle} (hc : a.contains h = true) :
    Added a h ts (a.addTrees h ts) :=
  addTrees_added_of (fun t _ _ _ hc => addTree_added t hc) hc

/-! ## Planted arenas -/

theorem ofTree_added (id : Nat) (value : α) (children : List (Rose α)) :
    Added (ofRoot id value) ⟨id, 0⟩ children (ofTree id (.node value children)) :=
  addTrees_added children (contains_root (ofRoot id value))

theorem id_ofTree (id : Nat) (t : Rose α) : (ofTree id t).id = id := by
  obtain ⟨value, children⟩ := t
  exact (ofTree_added id value children).id_eq

/-- A planted arena has as many nodes as the tree. -/
theorem size_ofTree (id : Nat) (t : Rose α) : (ofTree id t).size = t.size := by
  obtain ⟨value, children⟩ := t
  rw [size, (ofTree_added id value children).size_eq, Rose.size, Nat.add_comm]
  rfl

/-- **A planted arena holds the tree, with the handles in pre-order.** -/
theorem tree_ofTree (id : Nat) (t : Rose α) : (ofTree id t).tree = t.numbered id 0 := by
  obtain ⟨value, children⟩ := t
  have hadded := ofTree_added id value children
  have hhere : (ofTree id (.node value children)).slots[0]? = some ⟨value, none,
      (Rose.numberedAll id 1 children).map Rose.handle⟩ := hadded.here
  have hbelow : ∀ t ∈ Rose.numberedAll id 1 children,
      (ofTree id (.node value children)).subtree? t.handle = some t := hadded.below
  have hroot := subtree?_root (ofTree id (.node value children))
  rw [root, subtree?_of_slot? (by rw [slot?_mk, hhere]), filterMap_subtree? hbelow,
    id_ofTree] at hroot
  exact (Option.some.inj hroot).symm

/-- The root of a planted arena holds the value at the root of the tree. -/
theorem value?_root_ofTree (id : Nat) (t : Rose α) :
    (ofTree id t).value? (ofTree id t).root = some t.value := by
  obtain ⟨value, children⟩ := t
  have hhere : (ofTree id (.node value children)).slots[0]? = some ⟨value, none,
      (Rose.numberedAll id 1 children).map Rose.handle⟩ := (ofTree_added id value children).here
  rw [value?, root, slot?_mk, hhere]
  rfl

/-- A planted arena is as deep as the tree. -/
theorem depth_ofTree (id : Nat) (t : Rose α) : (ofTree id t).depth = t.depth := by
  rw [depth, tree_ofTree, ← Rose.depth_map Prod.snd, Rose.map_snd_numbered]

/-! ## The order of the nodes -/

/-- A walk that finds no node on its stack has nothing left to visit. -/
theorem filterMap_subtree?_of_nextPreorder_eq_none {stack : List Handle}
    (hn : a.nextPreorder stack = none) : stack.filterMap a.subtree? = [] := by
  induction stack with
  | nil => rfl
  | cons h stack ih =>
    rw [nextPreorder] at hn
    cases hs : a.slot? h with
    | some s => simp [hs] at hn
    | none =>
      rw [hs] at hn
      rw [List.filterMap_cons_none (subtree?_of_slot?_eq_none hs), ih hn]

/-- A walk visits first the first node of the trees on its stack, and leaves the others. -/
theorem preorderAll_of_nextPreorder_eq_some {stack after : List Handle} {h : Handle}
    (hn : a.nextPreorder stack = some (h, after)) :
    (Rose.preorderAll (stack.filterMap a.subtree?)).map Prod.fst
      = h :: (Rose.preorderAll (after.filterMap a.subtree?)).map Prod.fst := by
  induction stack with
  | nil => simp [nextPreorder] at hn
  | cons g stack ih =>
    rw [nextPreorder] at hn
    cases hs : a.slot? g with
    | some s =>
      rw [hs] at hn
      obtain ⟨rfl, rfl⟩ : g = h ∧ s.children ++ stack = after := by simpa using hn
      rw [List.filterMap_cons_some (subtree?_of_slot? hs), Rose.preorderAll, Rose.preorder,
        List.filterMap_append, Rose.preorderAll_eq_flatMap (_ ++ _), List.flatMap_append,
        ← Rose.preorderAll_eq_flatMap, ← Rose.preorderAll_eq_flatMap]
      rfl
    | none =>
      rw [hs] at hn
      rw [List.filterMap_cons_none (subtree?_of_slot?_eq_none hs), ih hn]

/-- A walk visits the nodes of the trees on its stack in pre-order. -/
theorem visitPreorder_eq (a : Arena α) (stack : List Handle) :
    a.visitPreorder stack = (Rose.preorderAll (stack.filterMap a.subtree?)).map Prod.fst := by
  fun_induction visitPreorder a stack with
  | case1 stack hn => rw [filterMap_subtree?_of_nextPreorder_eq_none hn]; rfl
  | case2 stack h after hn ih => rw [preorderAll_of_nextPreorder_eq_some hn, ih]

/-- **The walk through an arena visits the nodes of its tree in pre-order.** -/
theorem preorder_eq (a : Arena α) : a.preorder = a.tree.preorder.map Prod.fst := by
  rw [preorder, visitPreorder_eq, List.filterMap_cons_some (subtree?_root a), List.filterMap_nil,
    Rose.preorderAll, Rose.preorderAll, List.append_nil]

/-- In a planted arena the handles were handed out in pre-order. -/
theorem preorder_ofTree (id : Nat) (t : Rose α) :
    (ofTree id t).preorder = (List.range t.size).map (Handle.mk id) := by
  rw [preorder_eq, tree_ofTree, Rose.preorder_numbered, List.range_eq_range']

/-! ## Values below a node -/

/-- The children of a node, each with its value. -/
def entriesBelow (a : Arena α) (x : Handle × α) : List (Handle × α) :=
  (a.children x.1).filterMap fun c => (a.value? c).map (c, ·)

theorem map_snd_entriesBelow (a : Arena α) (x : Handle × α) :
    (a.entriesBelow x).map Prod.snd = (a.children x.1).filterMap a.value? := by
  rw [entriesBelow, List.map_filterMap]
  apply List.filterMap_congr
  intro c _
  cases a.value? c <;> rfl

theorem slot?_of_subtree?_eq_some {h : Handle} {t : Rose (Handle × α)}
    (ht : a.subtree? h = some t) : ∃ s, a.slot? h = some s := by
  rw [← Option.isSome_iff_exists, slot?_isSome, ← subtree?_isSome, ht]
  rfl

/-- At the root of the tree below a node stand the node and its value. -/
theorem map_value_subtree? (a : Arena α) (h : Handle) :
    (a.subtree? h).map Rose.value = (a.value? h).map (h, ·) := by
  cases hs : a.slot? h with
  | some s => rw [subtree?_of_slot? hs, value?, hs]; rfl
  | none => rw [subtree?_of_slot?_eq_none hs, value?, hs]; rfl

/-- The tree below a node follows the links to children. -/
theorem unfolds_of_subtree?_eq_some {h : Handle} {t : Rose (Handle × α)}
    (ht : a.subtree? h = some t) : t.Unfolds a.entriesBelow := by
  induction t generalizing h with
  | node value children ih =>
    obtain ⟨s, hs⟩ := slot?_of_subtree?_eq_some ht
    rw [subtree?_of_slot? hs, Option.some.injEq, Rose.node.injEq] at ht
    obtain ⟨rfl, rfl⟩ := ht
    rw [Rose.unfolds_node]
    constructor
    · rw [List.map_filterMap, entriesBelow, Arena.children, hs]
      apply List.filterMap_congr
      intro c _
      exact map_value_subtree? a c
    · intro t ht
      obtain ⟨c, -, hc⟩ := List.mem_filterMap.1 ht
      exact ih t ht hc

/-- The nodes of the tree below a node stand there with their values. -/
theorem value?_of_mem_preorder {h : Handle} {t : Rose (Handle × α)}
    (ht : a.subtree? h = some t) : ∀ x ∈ t.preorder, a.value? x.1 = some x.2 := by
  induction t generalizing h with
  | node value children ih =>
    obtain ⟨s, hs⟩ := slot?_of_subtree?_eq_some ht
    rw [subtree?_of_slot? hs, Option.some.injEq, Rose.node.injEq] at ht
    obtain ⟨rfl, rfl⟩ := ht
    intro x hx
    rw [Rose.preorder_node, List.mem_cons, List.mem_flatMap] at hx
    rcases hx with rfl | ⟨t, ht, hxt⟩
    · rw [value?, hs]
      rfl
    · obtain ⟨c, -, hc⟩ := List.mem_filterMap.1 ht
      exact ih t ht hc x hxt

/-- Every child of a node is a node of the same tree. -/
theorem contains_of_mem_children {h g : Handle} (hg : g ∈ a.children h) :
    a.contains g = true := by
  rw [Arena.children] at hg
  cases hs : a.slot? h with
  | none => simp [hs] at hg
  | some s =>
    rw [hs] at hg
    obtain ⟨htree, -, hlt⟩ := a.newer h.index s (slot?_eq_some hs).2 g hg
    exact contains_iff.2 ⟨htree, hlt⟩

/-- No child is without a value. -/
theorem map_value?_children (a : Arena α) (h : Handle) :
    (a.children h).map a.value? = ((a.children h).filterMap a.value?).map some := by
  have hsome : ∀ g ∈ a.children h, ∃ x, a.value? g = some x := by
    intro g hg
    rw [← Option.isSome_iff_exists, value?, Option.isSome_map, slot?_isSome]
    exact contains_of_mem_children hg
  generalize a.children h = gs at hsome
  induction gs with
  | nil => rfl
  | cons g gs ih =>
    rw [List.forall_mem_cons] at hsome
    obtain ⟨x, hx⟩ := hsome.1
    rw [List.map_cons, ih hsome.2, List.filterMap_cons_some hx, List.map_cons, hx]

/-- The walk through an arena visits the values of its tree in pre-order. -/
theorem values_eq (a : Arena α) : a.values = a.tree.preorder.map Prod.snd := by
  rw [values, preorder_eq, List.filterMap_map, ← List.filterMap_eq_map]
  exact List.filterMap_congr (value?_of_mem_preorder (subtree?_root a))

/-- A planted arena holds the values of the tree. -/
theorem values_ofTree (id : Nat) (t : Rose α) : (ofTree id t).values = t.preorder := by
  rw [values_eq, ← Rose.preorder_map, tree_ofTree, Rose.map_snd_numbered]

/-- The nodes of a planted arena other than the root hold the values below the root. -/
theorem exists_value?_ofTree_iff (id : Nat) (t : Rose α) {x : α} :
    (∃ h, h ≠ (ofTree id t).root ∧ (ofTree id t).value? h = some x) ↔ x ∈ t.preorder.tail := by
  obtain ⟨n, hn⟩ : ∃ n, t.size = n + 1 := ⟨t.size - 1, by have := t.size_pos; omega⟩
  have hroot := value?_root_ofTree id t
  -- All handles but the first one, which is that of the root.
  have hvalues : t.preorder.tail
      = ((List.range' 1 n).map (Handle.mk id)).filterMap (ofTree id t).value? := by
    rw [root, id_ofTree] at hroot
    rw [← values_ofTree id t, values, preorder_ofTree, hn, List.range_eq_range', List.range'_succ,
      List.map_cons, List.filterMap_cons_some hroot, List.tail_cons]
  simp only [hvalues, List.mem_filterMap, List.mem_map, List.mem_range'_1]
  constructor
  · rintro ⟨h, hne, hx⟩
    have hc := contains_of_value? hx
    have hmk := eq_mk_of_contains hc
    have hlt := (contains_iff.1 hc).2
    rw [id_ofTree] at hmk
    have hpos : h.index ≠ 0 := by
      intro hzero
      rw [hzero] at hmk
      exact hne (hmk.trans (by rw [root, id_ofTree]))
    have hsize : (ofTree id t).slots.size = n + 1 := (size_ofTree id t).trans hn
    exact ⟨h, ⟨h.index, by omega, hmk.symm⟩, hx⟩
  · rintro ⟨h, ⟨i, hi, rfl⟩, hx⟩
    refine ⟨⟨id, i⟩, ?_, hx⟩
    intro heq
    rw [root, Handle.mk.injEq] at heq
    omega

/-- **Below every node of a planted unfolding stand the values that the unfolded function gives
for it.** -/
theorem children_ofTree (id : Nat) {next : α → List α} {t : Rose α} (ht : t.Unfolds next)
    {h : Handle} {x : α} (hx : (ofTree id t).value? h = some x) :
    ((ofTree id t).children h).map (ofTree id t).value? = (next x).map some := by
  have htree := subtree?_root (ofTree id t)
  -- The node stands in the tree, which consists of all handles.
  have hmem : (h, x) ∈ (ofTree id t).tree.preorder := by
    have hc : (ofTree id t).contains h = true := contains_of_value? hx
    have hrange : h ∈ (ofTree id t).preorder := by
      rw [preorder_ofTree, List.mem_map]
      refine ⟨h.index, ?_, by rw [eq_mk_of_contains hc, id_ofTree]⟩
      rw [List.mem_range, ← size_ofTree id t]
      exact (contains_iff.1 hc).2
    rw [preorder_eq, List.mem_map] at hrange
    obtain ⟨y, hy, rfl⟩ := hrange
    have hvalue := value?_of_mem_preorder htree y hy
    rw [hx, Option.some.injEq] at hvalue
    rwa [hvalue]
  have hmap : ((ofTree id t).tree.map Prod.snd).Unfolds next := by
    rw [tree_ofTree, Rose.map_snd_numbered]
    exact ht
  have hagree := (unfolds_of_subtree?_eq_some htree).map_agree hmap (h, x) hmem
  rw [map_value?_children, ← map_snd_entriesBelow _ (h, x), hagree]

/-! ## Values on the path to a node -/

/-- The values on the path from the root down to a node. -/
def trail (a : Arena α) (h : Handle) : List α := (a.path h).filterMap a.value?

/-- The path to a node is the path to its parent and the node. -/
theorem trail_of_slot? {h : Handle} {s : Slot α} (hs : a.slot? h = some s) :
    a.trail h = s.parent.elim [] a.trail ++ [s.value] := by
  have hvalue : a.value? h = some s.value := by rw [value?, hs]; rfl
  rw [trail, path, ancestry_of_slot? hs, List.reverse_cons, List.filterMap_append,
    List.filterMap_cons_some hvalue]
  cases s.parent <;> rfl

theorem trail_ofRoot (id : Nat) (value : α) : (ofRoot id value).trail ⟨id, 0⟩ = [value] := by
  have hs : (ofRoot id value).slot? ⟨id, 0⟩ = some ⟨value, none, []⟩ :=
    slot?_of_tree_eq rfl
  rw [trail_of_slot? hs]
  rfl

/-- An arena extends another if it has its nodes with the same values and parents. -/
structure Extends (a b : Arena α) : Prop where
  id_eq : b.id = a.id
  kept : ∀ h s, a.slot? h = some s → ∃ children, b.slot? h = some { s with children := children }

namespace Extends

theorem value? (hab : Extends a b) {h : Handle} {x : α} (hx : a.value? h = some x) :
    b.value? h = some x := by
  obtain ⟨s, hs, rfl⟩ := Option.map_eq_some_iff.1 hx
  obtain ⟨children, hb⟩ := hab.kept h s hs
  rw [Arena.value?, hb]
  rfl

theorem contains (hab : Extends a b) {h : Handle} (hc : a.contains h = true) :
    b.contains h = true := by
  rw [← slot?_isSome] at hc ⊢
  obtain ⟨s, hs⟩ := Option.isSome_iff_exists.1 hc
  obtain ⟨children, hb⟩ := hab.kept h s hs
  rw [hb]
  rfl

/-- The values on the path to a node stay the same in an arena that extends its own. -/
theorem trail (hab : Extends a b) {h : Handle} (hc : a.contains h = true) :
    b.trail h = a.trail h := by
  rw [← slot?_isSome] at hc
  obtain ⟨s, hs⟩ := Option.isSome_iff_exists.1 hc
  obtain ⟨children, hb⟩ := hab.kept h s hs
  rw [trail_of_slot? hs, trail_of_slot? hb]
  cases hp : s.parent with
  | none => rfl
  | some p =>
    obtain ⟨htree, holder⟩ := a.older h.index s (slot?_eq_some hs).2 p hp
    have hh := (contains_iff.1 (slot?_isSome.symm.trans (by rw [hs]; rfl))).2
    have hpc : a.contains p = true := contains_iff.2 ⟨htree, by omega⟩
    show b.trail p ++ _ = a.trail p ++ _
    rw [trail hab hpc]
termination_by h.index

end Extends

/-- Adding trees extends an arena. -/
theorem Added.extends {h : Handle} {ts : List (Rose α)} (hab : Added a h ts b) : Extends a b := by
  refine ⟨hab.id_eq, ?_⟩
  intro g s hs
  obtain ⟨htree, hslot⟩ := slot?_eq_some hs
  rw [slot?_of_tree_eq (by rw [htree, hab.id_eq])]
  by_cases hg : g.index = h.index
  · rw [hg, hab.here, ← hg, hslot]
    exact ⟨_, rfl⟩
  · have hlt : g.index < a.slots.size := (Array.getElem?_eq_some_iff.1 hslot).1
    rw [hab.others _ hlt hg, hslot]
    exact ⟨s.children, rfl⟩

/-- Adding one node extends an arena. -/
theorem extends_addChild {h g : Handle} {value : α} (hadd : a.addChild h value = some (g, b)) :
    Extends a b :=
  (Added.node hadd (.nil b g)).extends

/-- The path to a new node is the path to its parent and the node. -/
theorem trail_addChild {h g : Handle} {value : α} (hadd : a.addChild h value = some (g, b)) :
    b.trail g = a.trail h ++ [value] := by
  rw [trail_of_slot? (slot?_addChild hadd)]
  show b.trail h ++ [value] = _
  rw [(extends_addChild hadd).trail (addChild_eq_some hadd).1]

end Arena

end FieldTree
