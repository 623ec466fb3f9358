/-
# What the two walks visit

A walk keeps on a stack what is still to be visited, so a stack stands for the nodes that the walk
has before it: those at and below each handle on it and, in a post-order walk, an opened node
alone.  Every step takes the first of these nodes off.  Since the links of an arena agree, no node
stands below two others, and a walk from the root comes to every node once.

* `Arena.visitPostorder_eq` : a post-order walk visits what its stack stands for;
* `Arena.Linked.nodup_preorder`, `Arena.Linked.mem_preorder_iff` : every node is visited once;
* `Rose.Unfolds.filter_preorder`, `Rose.Unfolds.filter_postorder` : either order passes the leaves
  from left to right;
* `Arena.run_traversals` : both walks end, and visit every node in the recursive order.
-/
import FieldTree.Proofs.Links
import Mathlib.Data.List.Perm.Basic

namespace FieldTree

/-! ## Orders of a tree -/

namespace Rose

variable {α : Type} {next : α → List α} {t : Rose α}

/-- Both orders visit the same values. -/
theorem postorder_perm_preorder (t : Rose α) : t.postorder.Perm t.preorder := by
  induction t with
  | node value children ih =>
    have hrow : (children.flatMap postorder).Perm (children.flatMap preorder) :=
      List.Perm.flatMap_left children ih
    rw [postorder_node, preorder_node]
    exact (List.perm_append_singleton value _).trans (hrow.cons value)

/-- The values below the root that nothing is given for are the leaves below it. -/
theorem filter_flatMap_eq_leaves {order : Rose α → List α} {children : List (Rose α)}
    (ih : ∀ s ∈ children, (order s).filter (fun x => (next x).isEmpty) = s.leaves) :
    (children.flatMap order).filter (fun x => (next x).isEmpty) = children.flatMap leaves := by
  rw [List.filter_flatMap]
  exact List.flatMap_congr ih

/-- The pre-order of an unfolding passes its leaves from left to right. -/
theorem Unfolds.filter_preorder (ht : t.Unfolds next) :
    t.preorder.filter (fun x => (next x).isEmpty) = t.leaves := by
  induction t with
  | node value children ih =>
    obtain ⟨hvalues, hbelow⟩ := unfolds_node.1 ht
    rw [preorder_node, List.filter_cons, ← hvalues, leaves_node,
      filter_flatMap_eq_leaves fun s hs => ih s hs (hbelow s hs)]
    cases children <;> rfl

/-- So does its post-order. -/
theorem Unfolds.filter_postorder (ht : t.Unfolds next) :
    t.postorder.filter (fun x => (next x).isEmpty) = t.leaves := by
  induction t with
  | node value children ih =>
    obtain ⟨hvalues, hbelow⟩ := unfolds_node.1 ht
    rw [postorder_node, List.filter_append, List.filter_cons, ← hvalues, leaves_node,
      filter_flatMap_eq_leaves fun s hs => ih s hs (hbelow s hs)]
    cases children with
    | nil => rfl
    | cons s rest =>
      show _ ++ [] = _
      rw [List.append_nil, if_neg (List.cons_ne_nil s rest)]

end Rose

/-! ## Running an iterator -/

/-- An iterator that is run from a state until it has nothing more gives some items in order. -/
inductive Yields {σ β : Type} (next : σ → Option (β × σ)) : σ → List β → Prop where
  | done {state : σ} : next state = none → Yields next state []
  | more {state after : σ} {item : β} {items : List β} :
      next state = some (item, after) → Yields next after items → Yields next state (item :: items)

namespace Arena

variable {α : Type} {a : Arena α} {h g c d : Handle} {s : Slot α}

/-- A pre-order walk ends, from any stack, and gives what it visits. -/
theorem yields_visitPreorder (a : Arena α) (stack : List Handle) :
    Yields a.nextPreorder stack (a.visitPreorder stack) := by
  fun_induction visitPreorder a stack with
  | case1 stack hn => exact .done hn
  | case2 stack h after hn ih => exact .more hn ih

/-- A post-order walk ends, from any stack, and gives what it visits. -/
theorem yields_visitPostorder (a : Arena α) (stack : List (Handle × Bool)) :
    Yields a.nextPostorder stack (a.visitPostorder stack) := by
  fun_induction visitPostorder a stack with
  | case1 stack hn => exact .done hn
  | case2 stack h after hn ih => exact .more hn ih

/-! ## The stack of a post-order walk -/

/-- The nodes that an entry of a post-order walk stands for: an opened node itself, and with any
other node all that stands below it. -/
def entryOrder (a : Arena α) (entry : Handle × Bool) : List Handle :=
  match a.subtree? entry.1 with
  | none => []
  | some t => if entry.2 then [entry.1] else t.postorder.map Prod.fst

/-- Nodes that have not been opened stand for the trees below them. -/
theorem flatMap_entryOrder_unopened (a : Arena α) (handles : List Handle) :
    (handles.map (·, false)).flatMap a.entryOrder
      = ((handles.filterMap a.subtree?).flatMap Rose.postorder).map Prod.fst := by
  induction handles with
  | nil => rfl
  | cons h handles ih =>
    rw [List.map_cons, List.flatMap_cons, ih, entryOrder]
    cases ht : a.subtree? h with
    | none => rw [List.filterMap_cons_none ht]; rfl
    | some t => rw [List.filterMap_cons_some ht, List.flatMap_cons, List.map_append]; rfl

/-- Opening a node does not change what the stack stands for. -/
theorem flatMap_entryOrder_opening (hs : a.slot? h = some s)
    (stack : List (Handle × Bool)) :
    (opening h s stack).flatMap a.entryOrder = ((h, false) :: stack).flatMap a.entryOrder := by
  have ht := subtree?_of_slot? hs
  rw [opening, List.flatMap_append, flatMap_entryOrder_unopened, List.flatMap_cons,
    List.flatMap_cons, entryOrder, entryOrder, ht, ← List.append_assoc]
  congr 1
  show _ ++ [h] = (Rose.node (h, s.value) _).postorder.map Prod.fst
  rw [Rose.postorder_node, List.map_append]
  rfl

/-- A step of a post-order walk takes the first node off what the stack stands for. -/
theorem flatMap_entryOrder (a : Arena α) (stack : List (Handle × Bool)) :
    stack.flatMap a.entryOrder = match a.nextPostorder stack with
      | none => []
      | some (h, after) => h :: after.flatMap a.entryOrder := by
  fun_induction nextPostorder a stack with
  | case1 => rfl
  | case2 h opened stack hs ih =>
    rw [List.flatMap_cons, entryOrder, subtree?_of_slot?_eq_none hs]
    exact ih
  | case3 h stack s hs =>
    rw [List.flatMap_cons, entryOrder, subtree?_of_slot? hs]
    rfl
  | case4 h stack s hs ih => rw [← flatMap_entryOrder_opening hs, ih]

/-- **A post-order walk visits what its stack stands for.** -/
theorem visitPostorder_eq (a : Arena α) (stack : List (Handle × Bool)) :
    a.visitPostorder stack = stack.flatMap a.entryOrder := by
  fun_induction visitPostorder a stack with
  | case1 stack hn => rw [flatMap_entryOrder, hn]
  | case2 stack h after hn ih => rw [flatMap_entryOrder, hn, ih]

/-- **The walk through an arena visits the nodes of its tree in post-order.** -/
theorem postorder_eq (a : Arena α) : a.postorder = a.tree.postorder.map Prod.fst := by
  rw [postorder, visitPostorder_eq, List.flatMap_singleton, entryOrder, subtree?_root]
  rfl

theorem postorder_perm_preorder (a : Arena α) : a.postorder.Perm a.preorder := by
  rw [postorder_eq, preorder_eq]
  exact (Rose.postorder_perm_preorder a.tree).map Prod.fst

/-! ## Every node is visited once -/

theorem exists_slot? (hc : a.contains h = true) : ∃ s, a.slot? h = some s :=
  Option.isSome_iff_exists.1 (slot?_isSome.trans hc)

theorem exists_value? (hc : a.contains h = true) : ∃ x, a.value? h = some x := by
  obtain ⟨s, hs⟩ := exists_slot? hc
  exact ⟨s.value, by rw [value?, hs]; rfl⟩

theorem exists_subtree? (hc : a.contains h = true) : ∃ t, a.subtree? h = some t :=
  Option.isSome_iff_exists.1 (subtree?_isSome.trans hc)

theorem children_of_slot? (hs : a.slot? h = some s) : a.children h = s.children := by
  rw [children, hs]

/-- The tree below a node consists of the node and the trees below its children. -/
theorem eq_of_subtree?_eq_node {x : Handle × α} {children : List (Rose (Handle × α))}
    (ht : a.subtree? h = some (.node x children)) :
    ∃ v, x = (h, v) ∧ children = (a.children h).filterMap a.subtree? := by
  obtain ⟨s, hs⟩ := slot?_of_subtree?_eq_some ht
  rw [subtree?_of_slot? hs, Option.some.injEq, Rose.node.injEq] at ht
  exact ⟨s.value, ht.1.symm, by rw [children_of_slot? hs, ht.2]⟩

/-- A node has only one parent to rise to. -/
theorem rises_rightUnique (a : Arena α) : Relator.RightUnique a.Rises := by
  intro h p q hp hq
  exact Option.some.inj (hp.symm.trans hq)

/-- Rising leads to older nodes. -/
theorem index_le_of_rises (hr : Relation.ReflTransGen a.Rises h g) : g.index ≤ h.index := by
  induction hr with
  | refl => exact le_rfl
  | tail _ hstep ih => exact (contains_of_parent? hstep).2.le.trans ih

/-- From every node of the tree below a node one rises to that node. -/
theorem Linked.rises_of_mem_preorder (ha : a.Linked) {t : Rose (Handle × α)}
    (ht : a.subtree? h = some t) : ∀ x ∈ t.preorder, Relation.ReflTransGen a.Rises x.1 h := by
  induction t generalizing h with
  | node value children ih =>
    obtain ⟨_, rfl, rfl⟩ := eq_of_subtree?_eq_node ht
    intro x hx
    rw [Rose.preorder_node, List.mem_cons, List.mem_flatMap] at hx
    rcases hx with rfl | ⟨u, hu, hxu⟩
    · exact .refl
    · obtain ⟨c, hc, hcu⟩ := List.mem_filterMap.1 hu
      exact .tail (ih u hu hcu x hxu) ((ha.agree c h).1 hc)

/-- No node stands below two children of one node. -/
theorem eq_of_rises_siblings (hc : a.parent? c = some h) (hd : a.parent? d = some h)
    (hgc : Relation.ReflTransGen a.Rises g c) (hgd : Relation.ReflTransGen a.Rises g d) :
    c = d := by
  -- One of the two would stand below the other, but what is above it is their parent.
  have habove : ∀ {c d : Handle}, a.parent? c = some h → a.parent? d = some h →
      Relation.ReflTransGen a.Rises c d → c = d := by
    intro c d hc hd hcd
    rcases hcd.cases_head with heq | ⟨p, hp, hpd⟩
    · exact heq
    · obtain rfl : p = h := Option.some.inj (hp.symm.trans hc)
      have hle := index_le_of_rises hpd
      have hlt := (contains_of_parent? hd).2
      omega
  rcases Relation.ReflTransGen.total_of_right_unique a.rises_rightUnique hgc hgd with hcd | hdc
  · exact habove hc hd hcd
  · exact (habove hd hc hdc).symm

/-- **No node comes twice in the tree below a node.** -/
theorem Linked.nodup_subtree (ha : a.Linked) {t : Rose (Handle × α)}
    (ht : a.subtree? h = some t) : (t.preorder.map Prod.fst).Nodup := by
  induction t generalizing h with
  | node value children ih =>
    obtain ⟨_, rfl, rfl⟩ := eq_of_subtree?_eq_node ht
    have hparent : ∀ c ∈ a.children h, a.parent? c = some h := fun c => (ha.agree c h).1
    rw [Rose.preorder_node, List.map_cons, List.map_flatMap, List.nodup_cons, List.nodup_flatMap]
    refine ⟨?_, ?_, ?_⟩
    · intro hmem
      obtain ⟨u, hu, hhu⟩ := List.mem_flatMap.1 hmem
      obtain ⟨x, hx, hxh⟩ := List.mem_map.1 hhu
      obtain ⟨c, hc, hcu⟩ := List.mem_filterMap.1 hu
      have hle := index_le_of_rises (ha.rises_of_mem_preorder hcu x hx)
      have hlt := (contains_of_parent? (hparent c hc)).2
      rw [hxh] at hle
      exact absurd hlt (Nat.not_lt.2 hle)
    · intro u hu
      obtain ⟨c, -, hcu⟩ := List.mem_filterMap.1 hu
      exact ih u hu hcu
    · rw [List.pairwise_filterMap]
      refine (ha.nodup h).imp_of_mem ?_
      intro c d hc hd hne u hu v hv g hgu hgv
      obtain ⟨x, hx, rfl⟩ := List.mem_map.1 hgu
      obtain ⟨y, hy, hyx⟩ := List.mem_map.1 hgv
      have hxc := ha.rises_of_mem_preorder hu x hx
      have hxd := ha.rises_of_mem_preorder hv y hy
      rw [hyx] at hxd
      exact hne (eq_of_rises_siblings (hparent c hc) (hparent d hd) hxc hxd)

theorem Linked.nodup_preorder (ha : a.Linked) : a.preorder.Nodup := by
  rw [preorder_eq]
  exact ha.nodup_subtree (subtree?_root a)

/-- Below every node of the tree of an arena stand its children. -/
theorem mem_preorder_of_mem_children (hg : g ∈ a.preorder) (hc : c ∈ a.children g) :
    c ∈ a.preorder := by
  rw [preorder_eq, List.mem_map] at hg ⊢
  obtain ⟨x, hx, rfl⟩ := hg
  obtain ⟨y, hy⟩ := exists_value? (contains_of_mem_children hc)
  have hbelow : (c, y) ∈ a.entriesBelow x :=
    List.mem_filterMap.2 ⟨c, hc, by rw [hy]; rfl⟩
  have htail := (unfolds_of_subtree?_eq_some (subtree?_root a)).mem_tail_preorder_iff.2
    ⟨x, hx, hbelow⟩
  exact ⟨(c, y), List.mem_of_mem_tail htail, rfl⟩

/-- **A walk from the root comes to the nodes of the arena and to nothing else.** -/
theorem Linked.mem_preorder_iff (ha : a.Linked) : h ∈ a.preorder ↔ a.contains h = true := by
  constructor
  · intro hmem
    rw [preorder_eq, List.mem_map] at hmem
    obtain ⟨x, hx, rfl⟩ := hmem
    exact contains_of_value? (value?_of_mem_preorder (subtree?_root a) x hx)
  · intro hc
    refine ha.node_induction (motive := fun h => h ∈ a.preorder) ?_ ?_ hc
    · obtain ⟨s, hs⟩ := exists_slot? (contains_root a)
      have htree := (subtree?_root a).symm.trans (subtree?_of_slot? hs)
      rw [preorder_eq, Option.some.inj htree, Rose.preorder_node]
      exact List.mem_cons_self
    · intro p c _ hchild ih
      exact mem_preorder_of_mem_children ih hchild

/-- The walk visits as many nodes as there are. -/
theorem Linked.length_preorder (ha : a.Linked) : a.preorder.length = a.size := by
  have hnodup : ((List.range a.slots.size).map (Handle.mk a.id)).Nodup :=
    List.nodup_range.map fun i j hij => (Handle.mk.inj hij).2
  have hperm : a.preorder.Perm ((List.range a.slots.size).map (Handle.mk a.id)) := by
    rw [List.perm_ext_iff_of_nodup ha.nodup_preorder hnodup]
    intro h
    rw [ha.mem_preorder_iff, List.mem_map]
    constructor
    · intro hc
      exact ⟨h.index, List.mem_range.2 (contains_iff.1 hc).2, (eq_mk_of_contains hc).symm⟩
    · rintro ⟨i, hi, rfl⟩
      exact contains_iff.2 ⟨rfl, List.mem_range.1 hi⟩
  rw [hperm.length_eq, List.length_map, List.length_range]
  rfl

/-! ## Leaves -/

/-- A node without children is one below which there are no values. -/
theorem isEmpty_entriesBelow (a : Arena α) (x : Handle × α) :
    (a.entriesBelow x).isEmpty = (a.children x.1).isEmpty := by
  have hlength := congrArg List.length (a.map_value?_children x.1)
  rw [← map_snd_entriesBelow, List.length_map, List.length_map, List.length_map] at hlength
  rw [Bool.eq_iff_iff, List.isEmpty_iff, List.isEmpty_iff, ← List.length_eq_zero_iff,
    ← List.length_eq_zero_iff, hlength]

/-- An order of the tree that passes its leaves from left to right passes those of the arena so. -/
theorem filter_map_fst_eq_leaves {order : List (Handle × α)}
    (horder : order.filter (fun x => (a.entriesBelow x).isEmpty) = a.tree.leaves) :
    (order.map Prod.fst).filter (fun h => (a.children h).isEmpty) = a.leaves := by
  rw [List.filter_map, leaves, ← horder]
  congr 2
  funext x
  exact (a.isEmpty_entriesBelow x).symm

theorem filter_preorder (a : Arena α) :
    a.preorder.filter (fun h => (a.children h).isEmpty) = a.leaves := by
  rw [preorder_eq]
  exact filter_map_fst_eq_leaves
    (unfolds_of_subtree?_eq_some (subtree?_root a)).filter_preorder

theorem filter_postorder (a : Arena α) :
    a.postorder.filter (fun h => (a.children h).isEmpty) = a.leaves := by
  rw [postorder_eq]
  exact filter_map_fst_eq_leaves
    (unfolds_of_subtree?_eq_some (subtree?_root a)).filter_postorder

/-! ## Both walks -/

/-- **The walks agree with the recursive orders.**  After any calls either walk, run from the root
until it has nothing more, comes to an end and gives the nodes in the recursive order.  Both give
every node of the arena once and nothing else, as many as there are, and both pass the leaves in
the same order, from left to right. -/
theorem run_traversals (id : Nat) (value : α) (calls : List (Call α)) :
    let a := (ofRoot id value).run calls
    (Yields a.nextPreorder [a.root] a.preorder ∧
      a.preorder = a.tree.preorder.map Prod.fst) ∧
    (Yields a.nextPostorder [(a.root, false)] a.postorder ∧
      a.postorder = a.tree.postorder.map Prod.fst) ∧
    (∀ h, a.preorder.count h = if a.contains h then 1 else 0) ∧
    (∀ h, a.postorder.count h = if a.contains h then 1 else 0) ∧
    a.postorder.Perm a.preorder ∧ a.preorder.length = a.size ∧
    a.preorder.filter (fun h => (a.children h).isEmpty) = a.leaves ∧
    a.postorder.filter (fun h => (a.children h).isEmpty) = a.leaves := by
  intro a
  have hlinked : a.Linked := (linked_ofRoot id value).run calls
  have hperm := a.postorder_perm_preorder
  have hcount : ∀ h, a.preorder.count h = if a.contains h then 1 else 0 := by
    intro h
    by_cases hc : a.contains h = true
    · rw [if_pos hc]
      exact List.count_eq_one_of_mem hlinked.nodup_preorder (hlinked.mem_preorder_iff.2 hc)
    · rw [if_neg hc, List.count_eq_zero, hlinked.mem_preorder_iff]
      exact hc
  refine ⟨⟨a.yields_visitPreorder _, a.preorder_eq⟩, ⟨a.yields_visitPostorder _, a.postorder_eq⟩,
    hcount, ?_, hperm, hlinked.length_preorder, a.filter_preorder, a.filter_postorder⟩
  intro h
  rw [hperm.count_eq, hcount]

/-- A root has two children, and the first of these has a child that was added last; one call is for
a node of another tree. -/
theorem run_traversals_fork :
    let calls : List (Call String) := [(⟨7, 0⟩, "a"), (⟨8, 0⟩, "b"), (⟨7, 0⟩, "c"), (⟨7, 1⟩, "d")]
    let a := (ofRoot 7 "root").run calls
    Yields a.nextPreorder [⟨7, 0⟩] [⟨7, 0⟩, ⟨7, 1⟩, ⟨7, 3⟩, ⟨7, 2⟩] ∧
    Yields a.nextPostorder [(⟨7, 0⟩, false)] [⟨7, 3⟩, ⟨7, 1⟩, ⟨7, 2⟩, ⟨7, 0⟩] ∧
    a.leaves = [⟨7, 3⟩, ⟨7, 2⟩] ∧ a.size = 4 := by
  intro calls a
  obtain ⟨⟨hpre, -⟩, ⟨hpost, htree⟩, -, -, -, hsize, hleaves, -⟩ := run_traversals 7 "root" calls
  have hpreorder : a.preorder = [⟨7, 0⟩, ⟨7, 1⟩, ⟨7, 3⟩, ⟨7, 2⟩] := by decide +kernel
  have hpostorder : a.postorder = [⟨7, 3⟩, ⟨7, 1⟩, ⟨7, 2⟩, ⟨7, 0⟩] :=
    htree.trans (by decide +kernel)
  have hfiltered : a.preorder.filter (fun h => (a.children h).isEmpty) = [⟨7, 3⟩, ⟨7, 2⟩] := by
    decide +kernel
  refine ⟨?_, ?_, hleaves.symm.trans hfiltered, hsize.symm.trans (by rw [hpreorder]; rfl)⟩
  · rw [← hpreorder]
    exact hpre
  · rw [← hpostorder]
    exact hpost

end Arena

end FieldTree
