/-
# Paths, depth and leaves

The path to a node is read upward, along the links to parents; depth, leaves and walks are read
downward, along the links to children.  Where the two directions agree, the path to a node is the
only way down to it from the root, so the longest path is as long as the tree is deep, and whoever
stands on the path to a node is visited before it.

* `Arena.yields_climb` : the way up from a node ends, and passes its path backwards;
* `Arena.LeadsTo` : handles lead down from the root to a node;
* `Arena.Linked.leadsTo_path`, `Arena.LeadsTo.eq_path` : the path to a node leads down to it, and
  nothing else does;
* `Arena.Linked.exists_leaf` : below every node stands a leaf as deep as the tree below the node;
* `Arena.Linked.before_of_prefix` : the nodes on the path to a node are visited before it;
* `Arena.run_paths` : how they agree after any calls.
-/
import FieldTree.Proofs.Subtrees
import FieldTree.Proofs.Traversals
import Mathlib.Data.List.Chain

namespace FieldTree

namespace Rose

variable {α : Type}

/-- One of some trees is as deep as they are together. -/
theorem exists_depthAll_eq {trees : List (Rose α)} (h : trees ≠ []) :
    ∃ t ∈ trees, depthAll trees = t.depth := by
  induction trees with
  | nil => exact absurd rfl h
  | cons t rest ih =>
    rw [depthAll]
    by_cases hrest : rest = []
    · exact ⟨t, List.mem_cons_self, by rw [hrest, depthAll, Nat.max_zero]⟩
    · obtain ⟨u, hu, hdepth⟩ := ih hrest
      rcases le_total t.depth (depthAll rest) with hle | hle
      · exact ⟨u, List.mem_cons_of_mem _ hu, by rw [max_eq_right hle, hdepth]⟩
      · exact ⟨t, List.mem_cons_self, max_eq_left hle⟩

end Rose

namespace Arena

variable {α : Type} {a : Arena α} {h p c x y : Handle} {steps : List Handle}

/-! ## Both directions end -/

/-- Children are newer than their parent, and older than the nodes that are still to come. -/
theorem index_of_mem_children (hc : c ∈ a.children h) :
    h.index < c.index ∧ c.index < a.slots.size := by
  cases hs : a.slot? h with
  | none =>
    rw [children, hs] at hc
    cases hc
  | some s =>
    rw [children_of_slot? hs] at hc
    exact (a.newer h.index s (slot?_eq_some hs).2 c hc).2

/-- Nothing goes down the links to children for ever. -/
theorem wellFounded_children (a : Arena α) : WellFounded fun c h => c ∈ a.children h := by
  have hwf : WellFounded fun c h : Handle => a.slots.size - c.index < a.slots.size - h.index :=
    InvImage.wf (fun h : Handle => a.slots.size - h.index) Nat.lt_wfRel.wf
  refine Subrelation.wf ?_ hwf
  intro c h hc
  have hindex := index_of_mem_children hc
  omega

/-- Nothing goes up the links to parents for ever. -/
theorem wellFounded_parent? (a : Arena α) : WellFounded fun p h => a.parent? h = some p := by
  refine Subrelation.wf ?_ (InvImage.wf Handle.index Nat.lt_wfRel.wf)
  intro p h hp
  exact (contains_of_parent? hp).2

/-- A step of the way up: to the node that it has come to, and on to the parent of that. -/
def climb (a : Arena α) : Option Handle → Option (Handle × Option Handle)
  | some h => some (h, a.parent? h)
  | none => none

/-- The way up from a node passes all nodes from there up to the root. -/
theorem yields_climb {h : Handle} (hc : a.contains h = true) :
    Yields a.climb (some h) (a.path h).reverse := by
  rw [path, List.reverse_reverse]
  obtain ⟨s, hs⟩ := exists_slot? hc
  rw [ancestry_of_slot? hs]
  have hparent : a.parent? h = s.parent := by rw [parent?, hs]; rfl
  refine .more (congrArg (fun q => some (h, q)) hparent) ?_
  cases hp : s.parent with
  | none => exact .done rfl
  | some p =>
    have hup := contains_of_parent? (hparent.trans hp)
    have hrec := yields_climb hup.1
    rwa [path, List.reverse_reverse] at hrec
termination_by h.index
decreasing_by exact hup.2

/-! ## The path to a node -/

theorem path_of_parent? (hp : a.parent? h = some p) : a.path h = a.path p ++ [h] := by
  rw [parent?, Option.bind_eq_some_iff] at hp
  obtain ⟨s, hs, hparent⟩ := hp
  rw [path, ancestry_of_slot? hs, hparent, List.reverse_cons]
  rfl

theorem path_of_orphan (hc : a.contains h = true) (hp : a.parent? h = none) : a.path h = [h] := by
  obtain ⟨s, hs⟩ := exists_slot? hc
  have hparent : s.parent = none := by rwa [parent?, hs] at hp
  rw [path, ancestry_of_slot? hs, hparent]
  rfl

theorem level_of_parent? (hp : a.parent? h = some p) : a.level h = a.level p + 1 := by
  rw [level, path_of_parent? hp, List.length_append, length_path (contains_of_parent? hp).1]
  rfl

theorem Linked.path_root (ha : a.Linked) : a.path a.root = [a.root] :=
  path_of_orphan (contains_root a) ((ha.orphan a.root (contains_root a)).2 rfl)

/-- Handles lead down to a node: they start at the root, end at the node, and each next one is a
child of the one before. -/
structure LeadsTo (a : Arena α) (steps : List Handle) (h : Handle) : Prop where
  start : steps.head? = some a.root
  finish : steps.getLast? = some h
  links : steps.IsChain fun p c => c ∈ a.children p

/-- **The path to a node leads down to it.** -/
theorem Linked.leadsTo_path (ha : a.Linked) (hc : a.contains h = true) :
    a.LeadsTo (a.path h) h := by
  refine ha.node_induction (motive := fun h => a.LeadsTo (a.path h) h) ?_ ?_ hc
  · rw [ha.path_root]
    exact ⟨rfl, rfl, .singleton _⟩
  · intro p c _ hmem ih
    rw [path_of_parent? ((ha.agree c p).1 hmem)]
    refine ⟨?_, List.getLast?_concat, ?_⟩
    · rw [List.head?_append, ih.start]
      rfl
    · rw [List.isChain_append]
      refine ⟨ih.links, .singleton _, ?_⟩
      rw [ih.finish]
      intro q hq d hd
      cases hq
      cases hd
      exact hmem

/-- **Nothing but the path leads down to a node.** -/
theorem LeadsTo.eq_path (ha : a.Linked) (hsteps : a.LeadsTo steps h) : steps = a.path h := by
  induction steps using List.reverseRecOn generalizing h with
  | nil => cases hsteps.start
  | append_singleton steps c ih =>
    obtain ⟨hstart, hfinish, hlinks⟩ := hsteps
    obtain rfl : c = h := by
      rw [List.getLast?_concat] at hfinish
      exact Option.some.inj hfinish
    cases hlast : steps.getLast? with
    | none =>
      rw [List.getLast?_eq_none_iff] at hlast
      subst hlast
      obtain rfl : c = a.root := Option.some.inj hstart
      exact ha.path_root.symm
    | some p =>
      -- What leads down to the node leads down to its parent first.
      rw [List.isChain_append] at hlinks
      have hmem : c ∈ a.children p := hlinks.2.2 p hlast c rfl
      have hne : steps ≠ [] := by
        rintro rfl
        cases hlast
      rw [List.head?_append_of_ne_nil _ hne] at hstart
      rw [ih ⟨hstart, hlast, hlinks.1⟩, path_of_parent? ((ha.agree c p).1 hmem)]

/-- Nothing that leads down passes a node twice. -/
theorem LeadsTo.nodup (hsteps : a.LeadsTo steps h) : steps.Nodup := by
  have hnewer : steps.IsChain fun p c => p.index < c.index :=
    hsteps.links.imp fun p c hc => (index_of_mem_children hc).1
  have hpairs := (List.isChain_iff_pairwise (R := fun p c : Handle => p.index < c.index)).1 hnewer
  refine hpairs.imp ?_
  rintro p _ hlt rfl
  exact Nat.lt_irrefl _ hlt

/-- Only handles of another tree have no path. -/
theorem Linked.path_eq_nil_iff (ha : a.Linked) : a.path h = [] ↔ a.contains h = false := by
  constructor
  · intro hnone
    rw [Bool.eq_false_iff]
    intro hc
    have hstart := (ha.leadsTo_path hc).start
    rw [hnone] at hstart
    cases hstart
  · intro hc
    rw [path, ancestry_of_slot?_eq_none (slot?_of_not_contains hc)]
    rfl

/-! ## Depth -/

/-- **Below every node stands a leaf as deep as the tree below the node.** -/
theorem Linked.exists_leaf (ha : a.Linked) {t : Rose (Handle × α)} (ht : a.subtree? h = some t) :
    ∃ x ∈ t.leaves, (a.path x.1).length + 1 = (a.path h).length + t.depth := by
  induction t generalizing h with
  | node value children ih =>
    obtain ⟨v, rfl, hchildren⟩ := eq_of_subtree?_eq_node ht
    rw [Rose.leaves_node, Rose.depth]
    by_cases hnone : children = []
    · rw [if_pos hnone, hnone, Rose.depthAll]
      exact ⟨_, List.mem_singleton.2 rfl, rfl⟩
    · obtain ⟨u, hu, hdepth⟩ := Rose.exists_depthAll_eq hnone
      obtain ⟨c, hc, hcu⟩ := List.mem_filterMap.1 (hchildren ▸ hu)
      obtain ⟨x, hx, hlength⟩ := ih u hu hcu
      rw [if_neg hnone]
      refine ⟨x, List.mem_flatMap.2 ⟨u, hu, hx⟩, ?_⟩
      rw [hlength, hdepth, path_of_parent? ((ha.agree c h).1 hc), List.length_append,
        List.length_singleton]
      omega

/-- No path is longer than the tree is deep. -/
theorem Linked.length_path_le (ha : a.Linked) (hc : a.contains h = true) :
    (a.path h).length ≤ a.depth := by
  obtain ⟨t, ht⟩ := exists_subtree? hc
  have hfits := ha.level_add_depth_le ht
  have hpos := t.depth_pos
  rw [length_path hc]
  omega

/-- The path to some leaf is as long as the tree is deep. -/
theorem Linked.exists_length_path_eq (ha : a.Linked) :
    ∃ h ∈ a.leaves, (a.path h).length = a.depth := by
  obtain ⟨x, hx, hlength⟩ := ha.exists_leaf (subtree?_root a)
  rw [ha.path_root, List.length_singleton, ← depth] at hlength
  exact ⟨x.1, List.mem_map_of_mem hx, by omega⟩

/-! ## Leaves -/

/-- **The leaves are the nodes without children**, each once. -/
theorem Linked.count_leaves (ha : a.Linked) (h : Handle) :
    a.leaves.count h = if a.contains h = true ∧ a.children h = [] then 1 else 0 := by
  have hmem : h ∈ a.leaves ↔ a.contains h = true ∧ a.children h = [] := by
    rw [← filter_preorder, List.mem_filter, ha.mem_preorder_iff, List.isEmpty_iff]
  have hnodup : a.leaves.Nodup := by
    rw [← filter_preorder]
    exact ha.nodup_preorder.filter _
  split
  · next hleaf => exact List.count_eq_one_of_mem hnodup (hmem.2 hleaf)
  · next hleaf => exact List.count_eq_zero.2 fun h => hleaf (hmem.1 h)

/-! ## Precedence -/

/-- Wherever two members of a list stand in it, the first one comes first. -/
def Before (l : List Handle) (x y : Handle) : Prop :=
  ∀ i j : Nat, l[i]? = some x → l[j]? = some y → i < j

/-- In a list that names nothing twice, a part of it tells which of two members comes first. -/
theorem before_of_sublist {l : List Handle} (hl : l.Nodup) (hsub : [x, y].Sublist l) :
    Before l x y := by
  induction l with
  | nil => cases hsub
  | cons z l ih =>
    rw [List.nodup_cons] at hl
    intro i j hi hj
    cases hsub with
    | cons _ hsub =>
      -- Neither of the two is the first member, since both come later.
      have hx : x ∈ l := hsub.subset List.mem_cons_self
      have hy : y ∈ l := hsub.subset (List.mem_cons_of_mem _ List.mem_cons_self)
      cases i with
      | zero => exact absurd (Option.some.inj hi ▸ hx) hl.1
      | succ i =>
        cases j with
        | zero => exact absurd (Option.some.inj hj ▸ hy) hl.1
        | succ j => exact Nat.succ_lt_succ (ih hl.2 hsub i j hi hj)
    | cons_cons _ hsub =>
      have hy : y ∈ l := List.singleton_sublist.1 hsub
      cases i with
      | zero =>
        cases j with
        | zero => exact absurd (Option.some.inj hj ▸ hy) hl.1
        | succ j => exact Nat.succ_pos j
      | succ i =>
        have hx : x ∈ l := List.mem_of_getElem? hi
        exact absurd hx hl.1

theorem Before.trans {l : List Handle} (hxp : Before l x p) (hpy : Before l p y) (hp : p ∈ l) :
    Before l x y := by
  intro i j hi hj
  obtain ⟨k, hk⟩ := List.mem_iff_getElem?.1 hp
  exact (hxp i k hi hk).trans (hpy k j hk hj)

/-- The pre-order of the tree below a node passes each child after its parent. -/
theorem pair_sublist_preorder {t : Rose (Handle × α)} (ht : a.subtree? h = some t) :
    ∀ x ∈ t.preorder, ∀ c ∈ a.children x.1, [x.1, c].Sublist (t.preorder.map Prod.fst) := by
  induction t generalizing h with
  | node value children ih =>
    obtain ⟨v, rfl, hchildren⟩ := eq_of_subtree?_eq_node ht
    intro x hx c hc
    rw [Rose.preorder_node, List.map_cons]
    rw [Rose.preorder_node, List.mem_cons, List.mem_flatMap] at hx
    rcases hx with rfl | ⟨u, hu, hxu⟩
    · -- The tree below a child starts with the child.
      obtain ⟨s, hs⟩ := exists_slot? (contains_of_mem_children hc)
      have hbelow := subtree?_of_slot? hs
      have hmem : (c, s.value) ∈ children.flatMap Rose.preorder := by
        rw [hchildren]
        refine List.mem_flatMap.2 ⟨_, List.mem_filterMap.2 ⟨c, hc, hbelow⟩, ?_⟩
        rw [Rose.preorder_node]
        exact List.mem_cons_self
      exact .cons_cons _ (List.singleton_sublist.2 (List.mem_map_of_mem hmem))
    · obtain ⟨d, -, hdu⟩ := List.mem_filterMap.1 (hchildren ▸ hu)
      have hrow : u.preorder.Sublist (children.flatMap Rose.preorder) := by
        rw [List.flatMap_def]
        exact List.sublist_flatten_of_mem (List.mem_map_of_mem hu)
      exact .cons _ ((ih u hu hdu x hxu c hc).trans (hrow.map Prod.fst))

/-- A node is visited before its children. -/
theorem Linked.before_child (ha : a.Linked) (hp : a.contains p = true) (hc : c ∈ a.children p) :
    Before a.preorder p c := by
  have hmem := ha.mem_preorder_iff.2 hp
  rw [preorder_eq, List.mem_map] at hmem
  obtain ⟨entry, hentry, rfl⟩ := hmem
  have hpair := pair_sublist_preorder (subtree?_root a) entry hentry c hc
  rw [← preorder_eq] at hpair
  exact before_of_sublist ha.nodup_preorder hpair

/-- **The nodes on the path to a node are visited before it.** -/
theorem Linked.before_of_prefix (ha : a.Linked) (hx : a.contains x = true)
    (hy : a.contains y = true) (hstart : a.path x <+: a.path y) (hne : a.path x ≠ a.path y) :
    Before a.preorder x y := by
  have hall : a.path x <+: a.path y → a.path x ≠ a.path y → Before a.preorder x y := by
    refine ha.node_induction (motive := fun y =>
      a.path x <+: a.path y → a.path x ≠ a.path y → Before a.preorder x y) ?_ ?_ hy
    · intro hstart hne
      -- The path to the root has no other part than itself.
      rw [ha.path_root] at hstart hne
      rcases List.prefix_cons_iff.1 hstart with hnone | ⟨rest, hrest, hnil⟩
      · rw [ha.path_eq_nil_iff, hx] at hnone
        cases hnone
      · rw [List.prefix_nil.1 hnil] at hrest
        exact absurd hrest hne
    · intro p c hp hc ih hstart hne
      rw [path_of_parent? ((ha.agree c p).1 hc)] at hstart hne
      have hchild := ha.before_child hp hc
      have hshort : a.path x <+: a.path p := by
        rcases List.prefix_concat_iff.1 hstart with heq | hshort
        · exact absurd heq hne
        · exact hshort
      by_cases heq : a.path x = a.path p
      · have hlast := (ha.leadsTo_path hx).finish
        rw [heq, (ha.leadsTo_path hp).finish] at hlast
        rwa [← Option.some.inj hlast]
      · exact (ih hshort heq).trans hchild (ha.mem_preorder_iff.2 hp)
  exact hall hstart hne

/-! ## Both directions together -/

/-- **Paths, depth, leaves and the walk agree.**  After any calls neither direction of the links
goes on for ever.  The path to a handle is what the way up from it passes; it is empty exactly for
handles of no node of this tree, and otherwise the only row of handles that leads down from the
root to the node, without passing any twice.  The tree is as deep as the longest path is long, which
is one to a leaf; the leaves are the nodes without children, each once; and a node that stands on
the path to another one is visited before it. -/
theorem run_paths (id : Nat) (value : α) (calls : List (Call α)) :
    let a := (ofRoot id value).run calls
    (WellFounded (fun p h => a.parent? h = some p) ∧ WellFounded fun c h => c ∈ a.children h) ∧
    (∀ h, Yields a.climb ((some h).filter a.contains) (a.path h).reverse) ∧
    (∀ h, a.path h = [] ↔ a.contains h = false) ∧
    (∀ h, a.contains h = true → a.LeadsTo (a.path h) h ∧ (a.path h).Nodup) ∧
    (∀ h steps, a.LeadsTo steps h → steps = a.path h) ∧
    (∀ h, a.contains h = true → (a.path h).length ≤ a.depth) ∧
    (∃ h ∈ a.leaves, (a.path h).length = a.depth) ∧
    (∀ h, a.leaves.count h = if a.contains h = true ∧ a.children h = [] then 1 else 0) ∧
    (∀ h, a.preorder.count h = if a.contains h = true then 1 else 0) ∧
    ∀ x y, a.path x <+: a.path y → a.path x ≠ a.path y →
      ∀ i j : Nat, a.preorder[i]? = some x → a.preorder[j]? = some y → i < j := by
  intro a
  have ha : a.Linked := (linked_ofRoot id value).run calls
  refine ⟨⟨a.wellFounded_parent?, a.wellFounded_children⟩, ?_, fun h => ha.path_eq_nil_iff, ?_,
    fun h steps hsteps => hsteps.eq_path ha, fun h hc => ha.length_path_le hc,
    ha.exists_length_path_eq, ha.count_leaves, ?_, ?_⟩
  · intro h
    cases hc : a.contains h with
    | false =>
      rw [ha.path_eq_nil_iff.2 hc, Option.filter_some, hc]
      exact .done rfl
    | true =>
      rw [Option.filter_some, hc]
      exact yields_climb hc
  · intro h hc
    exact ⟨ha.leadsTo_path hc, (ha.leadsTo_path hc).nodup⟩
  · intro h
    split
    · next hc => exact List.count_eq_one_of_mem ha.nodup_preorder (ha.mem_preorder_iff.2 hc)
    · next hc => exact List.count_eq_zero.2 fun h => hc (ha.mem_preorder_iff.1 h)
  · intro x y hstart hne i j hi hj
    have hx := ha.mem_preorder_iff.1 (List.mem_of_getElem? hi)
    have hy := ha.mem_preorder_iff.1 (List.mem_of_getElem? hj)
    exact ha.before_of_prefix hx hy hstart hne i j hi hj

/-- Of four calls one is for a node of another tree; the last one adds a node below the first of the
two children of the root, which is visited between these two. -/
theorem run_paths_fork :
    let calls : List (Call String) := [(⟨7, 0⟩, "a"), (⟨8, 0⟩, "b"), (⟨7, 0⟩, "c"), (⟨7, 1⟩, "d")]
    let a := (ofRoot 7 "root").run calls
    a.contains ⟨7, 3⟩ = true ∧ a.LeadsTo [⟨7, 0⟩, ⟨7, 1⟩, ⟨7, 3⟩] ⟨7, 3⟩ ∧
      a.path ⟨7, 3⟩ = [⟨7, 0⟩, ⟨7, 1⟩, ⟨7, 3⟩] ∧ (a.path ⟨7, 3⟩).Nodup ∧ 3 ≤ a.depth ∧
      a.path ⟨8, 0⟩ = [] ∧
      (a.path ⟨7, 1⟩ <+: a.path ⟨7, 3⟩ ∧ a.path ⟨7, 1⟩ ≠ a.path ⟨7, 3⟩) ∧
      ∃ i j : Nat, a.preorder[i]? = some ⟨7, 1⟩ ∧ a.preorder[j]? = some ⟨7, 3⟩ ∧ i < j := by
  intro calls a
  obtain ⟨-, -, hnone, hpath, honly, hdepth, -, -, hcount, hbefore⟩ := run_paths 7 "root" calls
  have hcontains : a.contains ⟨7, 1⟩ = true ∧ a.contains ⟨7, 3⟩ = true ∧
      a.contains ⟨8, 0⟩ = false := by decide +kernel
  have hlinks : (⟨7, 1⟩ : Handle) ∈ a.children ⟨7, 0⟩ ∧ (⟨7, 3⟩ : Handle) ∈ a.children ⟨7, 1⟩ := by
    decide +kernel
  have hfirst : a.LeadsTo [⟨7, 0⟩, ⟨7, 1⟩] ⟨7, 1⟩ :=
    ⟨rfl, rfl, .cons_cons hlinks.1 (.singleton _)⟩
  have hlast : a.LeadsTo [⟨7, 0⟩, ⟨7, 1⟩, ⟨7, 3⟩] ⟨7, 3⟩ :=
    ⟨rfl, rfl, .cons_cons hlinks.1 (.cons_cons hlinks.2 (.singleton _))⟩
  have hpathFirst := honly ⟨7, 1⟩ _ hfirst
  have hpathLast := honly ⟨7, 3⟩ _ hlast
  have hstart : a.path ⟨7, 1⟩ <+: a.path ⟨7, 3⟩ ∧ a.path ⟨7, 1⟩ ≠ a.path ⟨7, 3⟩ := by
    rw [← hpathFirst, ← hpathLast]
    decide
  have hvisited : ∀ h, a.contains h = true → ∃ i : Nat, a.preorder[i]? = some h := by
    intro h hc
    have hone := hcount h
    rw [if_pos hc] at hone
    exact List.mem_iff_getElem?.1 (List.count_pos_iff.1 (hone ▸ Nat.one_pos))
  obtain ⟨i, hi⟩ := hvisited _ hcontains.1
  obtain ⟨j, hj⟩ := hvisited _ hcontains.2.1
  refine ⟨hcontains.2.1, hlast, hpathLast.symm, (hpath _ hcontains.2.1).2, ?_,
    (hnone _).2 hcontains.2.2, hstart, i, j, hi, hj, hbefore _ _ hstart.1 hstart.2 i j hi hj⟩
  have hlength := hdepth _ hcontains.2.1
  rwa [← hpathLast] at hlength

end Arena

end FieldTree
