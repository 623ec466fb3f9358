/-
# Trees below a node

What stands below a node of a field tree depends only on the struct that the node is decomposed
into: neither the field that leads there, nor the path to it, nor the limit on levels leaves a
mark.  So a tree is put together from the trees of its types.

* `Arena.Linked.level_add_depth_le` : a node and what stands below it fit into the depth of the
  tree;
* `Arena.unfolds_below_ofTree` : below a node of a planted unfolding stands an unfolding;
* `Decomposition.below_compositional` : below a node stands what stands below the root of the tree
  of its struct, with the levels that are left.
-/
import FieldTree.Proofs.Coverage
import FieldTree.Proofs.Links

namespace FieldTree

namespace Rose

variable {α β : Type}

/-- A map that takes the values given for each value to those given for its image takes an
unfolding to an unfolding. -/
theorem Unfolds.map {next : α → List α} {next' : β → List β} {f : α → β} {t : Rose α}
    (ht : t.Unfolds next) (hagree : ∀ x ∈ t.preorder, (next x).map f = next' (f x)) :
    (t.map f).Unfolds next' := by
  induction t with
  | node value children ih =>
    obtain ⟨hvalues, hbelow⟩ := unfolds_node.1 ht
    rw [map_node, unfolds_node]
    constructor
    · have hroot := hagree value (by rw [preorder_node]; exact List.mem_cons_self)
      rw [← hroot, ← hvalues, List.map_map, List.map_map]
      apply List.map_congr_left
      rintro ⟨v, cs⟩ -
      rw [Function.comp, Function.comp, map_node]
      rfl
    · intro u hu
      obtain ⟨t, ht', rfl⟩ := List.mem_map.1 hu
      apply ih t ht' (hbelow t ht')
      intro x hx
      exact hagree x (List.mem_of_mem_tail (mem_tail_preorder_node.2 ⟨t, ht', hx⟩))

theorem depth_pos (t : Rose α) : 0 < t.depth := by
  cases t
  rw [depth]
  omega

/-- The depth of a tree does not depend on the value at its root. -/
theorem depth_node_congr (value value' : α) (children : List (Rose α)) :
    (node value children).depth = (node value' children).depth := by
  rw [depth, depth]

/-- A tree directly below the root is less deep. -/
theorem depth_lt_of_mem_children {t u : Rose α} (hu : u ∈ t.children) : u.depth < t.depth := by
  obtain ⟨value, children⟩ := t
  rw [depth]
  exact Nat.lt_succ_of_le ((depthAll_le_iff children _).1 le_rfl u hu)

/-- Unfoldings have the same below their roots if the same is given for these. -/
theorem Unfolds.children_eq {next : α → List α} {t u : Rose α} (ht : t.Unfolds next)
    (hu : u.Unfolds next) (hnext : next u.value = next t.value) : u.children = t.children := by
  obtain ⟨value, children⟩ := t
  obtain ⟨value', children'⟩ := u
  obtain ⟨hvalues, hbelow⟩ := unfolds_node.1 hu
  have hmoved : (Rose.node value children').Unfolds next := .node (hvalues.trans hnext) hbelow
  have hsame : Rose.node value children' = .node value children := ht.unique hmoved rfl
  exact (Rose.node.inj hsame).2

end Rose

namespace Arena

variable {α : Type} {a : Arena α}

/-! ## Levels -/

/-- The level of a node: how many steps lead to it from the root. -/
def level (a : Arena α) (h : Handle) : Nat := (a.path h).length - 1

/-- What is kept by every addition is kept when trees are added. -/
theorem addTrees_induction {motive : Arena α → Prop}
    (hstep : ∀ {a b : Arena α} {p g : Handle} {value : α},
      motive a → a.addChild p value = some (g, b) → motive b)
    (ts : List (Rose α)) {a : Arena α} (h : Handle) (ha : motive a) : motive (a.addTrees h ts) := by
  have hrow : ∀ (ts : List (Rose α)),
      (∀ t ∈ ts, ∀ (a : Arena α) (h : Handle), motive a → motive (a.addTree h t)) →
      ∀ (a : Arena α) (h : Handle), motive a → motive (a.addTrees h ts) := by
    intro ts
    induction ts with
    | nil => intro _ a h ha; exact ha
    | cons t ts ih =>
      intro hone a h ha
      rw [List.forall_mem_cons] at hone
      rw [addTrees]
      exact ih hone.2 _ h (hone.1 a h ha)
  have hone : ∀ (t : Rose α) (a : Arena α) (h : Handle), motive a → motive (a.addTree h t) := by
    intro t
    induction t with
    | node value children ih =>
      intro a h ha
      rw [addTree]
      split
      · next hadd => exact hrow children ih _ _ (hstep ha hadd)
      · exact ha
  exact hrow ts (fun t _ => hone t) a h ha

/-- The links of a planted arena agree. -/
theorem linked_ofTree (id : Nat) (t : Rose α) : (ofTree id t).Linked :=
  addTrees_induction Linked.addChild t.children _ (linked_ofRoot id t.value)

/-- A node stands one level below its parent, and the root at level zero. -/
theorem level_of_slot? {h : Handle} {s : Slot α} (hs : a.slot? h = some s) :
    a.level h = s.parent.elim 0 fun p => (a.path p).length := by
  rw [level, path, List.length_reverse, ancestry_of_slot? hs]
  cases s.parent with
  | none => rfl
  | some p =>
    show (a.ancestry p).length = (a.path p).length
    rw [path, List.length_reverse]

theorem length_path {h : Handle} (hc : a.contains h = true) :
    (a.path h).length = a.level h + 1 := by
  rw [← slot?_isSome] at hc
  obtain ⟨s, hs⟩ := Option.isSome_iff_exists.1 hc
  rw [level, path, List.length_reverse, ancestry_of_slot? hs]
  rfl

/-- **A node and what stands below it fit into the depth of the tree.** -/
theorem Linked.level_add_depth_le (ha : a.Linked) {h : Handle} {t : Rose (Handle × α)}
    (ht : a.subtree? h = some t) : a.level h + t.depth ≤ a.depth := by
  obtain ⟨s, hs⟩ := slot?_of_subtree?_eq_some ht
  have hlevel := level_of_slot? hs
  have hparent : a.parent? h = s.parent := by rw [parent?, hs]; rfl
  have hc : a.contains h = true := by rw [← slot?_isSome, hs]; rfl
  cases hp : s.parent with
  | none =>
    -- Only the root has no parent.
    obtain rfl : h = a.root := (ha.orphan h hc).1 (hparent.trans hp)
    rw [subtree?_root, Option.some.injEq] at ht
    rw [hlevel, hp, depth, ht]
    exact (Nat.zero_add _).le
  | some p =>
    have hchild : h ∈ a.children p := (ha.agree h p).2 (hparent.trans hp)
    obtain ⟨hpc, holder⟩ := contains_of_parent? (hparent.trans hp)
    have hlength := length_path hpc
    rw [← slot?_isSome] at hpc
    obtain ⟨sp, hsp⟩ := Option.isSome_iff_exists.1 hpc
    rw [children, hsp] at hchild
    -- The tree below the node is one of those below its parent.
    have hrec := ha.level_add_depth_le (subtree?_of_slot? hsp)
    have hlt : t.depth < (Rose.node (p, sp.value) (sp.children.filterMap a.subtree?)).depth :=
      Rose.depth_lt_of_mem_children (List.mem_filterMap.2 ⟨h, hchild, ht⟩)
    have hbelow : a.level h = a.level p + 1 := by
      rw [hlevel, hp, ← hlength]
      rfl
    omega
termination_by h.index

/-! ## Values below a node -/

/-- The values below a node, in the shape of the trees that they form. -/
def below (a : Arena α) (h : Handle) : List (Rose α) :=
  match a.subtree? h with
  | some t => t.children.map (Rose.map Prod.snd)
  | none => []

theorem below_of_subtree? {h : Handle} {t : Rose (Handle × α)} (ht : a.subtree? h = some t) :
    a.below h = (t.map Prod.snd).children := by
  obtain ⟨value, children⟩ := t
  rw [below, ht, Rose.map_node]
  rfl

/-- Below the root of a planted arena stands what stands below the root of the tree. -/
theorem below_root_ofTree (id : Nat) (t : Rose α) :
    (ofTree id t).below (ofTree id t).root = t.children := by
  rw [below_of_subtree? (subtree?_root _), tree_ofTree, Rose.map_snd_numbered]

/-- **Below a node of a planted unfolding stands an unfolding of its value**, as deep as the tree
below the node. -/
theorem unfolds_below_ofTree (id : Nat) {next : α → List α} {t : Rose α} (ht : t.Unfolds next)
    {h : Handle} {x : α} (hx : (ofTree id t).value? h = some x) :
    (Rose.node x ((ofTree id t).below h)).Unfolds next ∧
      (ofTree id t).level h + (Rose.node x ((ofTree id t).below h)).depth ≤ t.depth := by
  obtain ⟨u, hu⟩ := Option.isSome_iff_exists.1
    (subtree?_isSome.trans (contains_of_value? hx))
  have hvalue : (u.map Prod.snd).value = x := by
    have hroot := map_value_subtree? (ofTree id t) h
    rw [hu, hx, Option.map_some, Option.map_some, Option.some.injEq] at hroot
    obtain ⟨value, children⟩ := u
    obtain rfl : value = (h, x) := hroot
    rw [Rose.map_node]
    rfl
  -- At every node of the subtree the links to children give what the unfolded function gives.
  have hunfolds : (u.map Prod.snd).Unfolds next := by
    apply (unfolds_of_subtree?_eq_some hu).map
    intro y hy
    have hvalues := children_ofTree id ht (value?_of_mem_preorder hu y hy)
    rw [map_value?_children] at hvalues
    rw [map_snd_entriesBelow]
    exact List.map_injective_iff.2 (fun _ _ => Option.some.inj) hvalues
  have hnode : Rose.node x ((ofTree id t).below h) = u.map Prod.snd := by
    rw [below_of_subtree? hu, ← hvalue]
    cases u.map Prod.snd
    rfl
  refine ⟨hnode ▸ hunfolds, ?_⟩
  rw [hnode, Rose.depth_map, ← depth_ofTree id t]
  exact (linked_ofTree id t).level_add_depth_le hu

end Arena

namespace Decomposition

variable {s : Schema} {handlers : List Handler}

/-! ## Trees of the types below a node -/

/-- The tree of a struct holds what stands below a node that is decomposed into it, if that fits
into the levels. -/
theorem tree_root_of_unfolds (hb : ∀ handler ∈ handlers, handler ∈ Handler.defaults) {x : Node}
    {symbol : String} (hsymbol : (x.symbols s.introspection).head? = some symbol)
    {maxDepth : Option Nat} {children : List (Rose Node)}
    (ht : (Rose.node x children).Unfolds (ofSchema s handlers maxDepth).offspring) {n : Nat}
    (hdepth : (Rose.node x children).depth ≤ n + 1) :
    ((ofSchema s handlers (some n)).tree (.root symbol)).outcome
      = .ok (.ofTree 0 (.node (.root symbol) children)) := by
  have hstruct : s.IsStruct symbol := isStruct_of_mem_symbols (List.mem_of_head? hsymbol)
  have hroot : (Node.root symbol).symbols s.introspection = [symbol] := hstruct.symbols_eq
  -- The root has the same offspring as the node.
  have hsame : (ofSchema s handlers (some n)).offspring (.root symbol)
      = (ofSchema s handlers maxDepth).offspring x := by
    apply offspring_of_head?_eq hb
    rw [hroot, hsymbol]
    rfl
  obtain ⟨hvalues, hbelow⟩ := Rose.unfolds_node.1 ht
  have hunfolds : (Rose.node (.root symbol) children).Unfolds
      (ofSchema s handlers (some n)).offspring := .node (hvalues.trans hsame.symm) hbelow
  rw [Rose.depth_node_congr x (.root symbol)] at hdepth
  exact tree_eq_ok.2 ⟨_, Rose.unfold_eq_ok.2 ⟨rfl, hunfolds, hdepth⟩, rfl⟩

/-- **What stands below a node depends only on its struct.**  A node whose type stands for no
struct is a leaf; below any other node stands what stands below the root of the tree of its first
struct, built with the levels that are left.  Nodes with the same first struct have the same
below them. -/
theorem below_compositional (s : Schema) (root : String) (handlers : List Handler)
    (hb : ∀ handler ∈ handlers, handler ∈ Handler.defaults) (n : Nat) (a : Arena Node)
    (ha : ((ofSchema s handlers (some n)).tree (.root root)).outcome = .ok a)
    (h : Handle) (x : Node) (hx : a.value? h = some x) (target : String)
    (htarget : x.target = some target) :
    (s.symbols target = [] → a.children h = []) ∧
    (∀ symbol rest, s.symbols target = symbol :: rest →
      a.level h ≤ n ∧
      ∃ b, ((ofSchema s handlers (some (n - a.level h))).tree (.root symbol)).outcome = .ok b ∧
        a.below h = b.below b.root) ∧
    ∀ g y target' symbol, a.value? g = some y → y.target = some target' →
      (s.symbols target).head? = some symbol → (s.symbols target').head? = some symbol →
      a.below h = a.below g := by
  obtain ⟨t, ht, rfl⟩ := tree_eq_ok.1 ha
  obtain ⟨-, hunfolds, hdepth⟩ := Rose.unfold_eq_ok.1 ht
  have hsymbols : x.symbols s.introspection = s.symbols target := by rw [Node.symbols, htarget]; rfl
  obtain ⟨hbelow, hfits⟩ := Arena.unfolds_below_ofTree 0 hunfolds hx
  refine ⟨?_, ?_, ?_⟩
  · intro hnone
    have hchildren := Arena.children_ofTree 0 hunfolds hx
    rw [offspring_of_no_struct (hsymbols.trans hnone), List.map_nil, List.map_eq_nil_iff]
      at hchildren
    exact hchildren
  · intro symbol rest hsymbol
    have hfirst : (x.symbols s.introspection).head? = some symbol := by
      rw [hsymbols, hsymbol]
      rfl
    have hpos := Rose.depth_pos (.node x ((Arena.ofTree 0 t).below h))
    have hlimit : t.depth ≤ n + 1 := hdepth
    have hlevels : (Rose.node x ((Arena.ofTree 0 t).below h)).depth
        ≤ n - (Arena.ofTree 0 t).level h + 1 := by omega
    refine ⟨by omega, _, tree_root_of_unfolds hb hfirst hbelow hlevels, ?_⟩
    rw [Arena.below_root_ofTree]
    rfl
  · intro g y target' symbol hy htarget' hsymbol hsymbol'
    obtain ⟨hbelow', -⟩ := Arena.unfolds_below_ofTree 0 hunfolds hy
    have hsame : (ofSchema s handlers (some n)).offspring x
        = (ofSchema s handlers (some n)).offspring y := by
      apply offspring_of_head?_eq hb
      rw [hsymbols, Node.symbols, htarget']
      exact hsymbol.trans hsymbol'.symm
    exact hbelow'.children_eq hbelow hsame

/-- Below the shapes of a drawing stands what stands below a circle, built with the one level that
is left. -/
theorem below_compositional_shapes :
    (∀ handler ∈ Handler.defaults, handler ∈ Handler.defaults) ∧
    ∃ a, ((ofSchema drawing Handler.defaults (some 2)).tree (.root "Drawing")).outcome = .ok a ∧
      a.value? ⟨0, 1⟩ = some shapesNode ∧ shapesNode.target = some "Shape" ∧
      ∃ b, ((ofSchema drawing Handler.defaults (some (2 - a.level ⟨0, 1⟩))).tree
          (.root "Circle")).outcome = .ok b ∧
        a.below ⟨0, 1⟩ = b.below b.root := by
  have hb : ∀ handler ∈ Handler.defaults, handler ∈ Handler.defaults := fun _ h => h
  obtain ⟨-, hshape⟩ := symbols_drawing
  obtain ⟨-, hcircle, -⟩ := below_compositional drawing "Drawing" Handler.defaults hb 2 _
    tree_drawing ⟨0, 1⟩ shapesNode rfl "Shape" rfl
  obtain ⟨-, b, hbuilt, hsame⟩ := hcircle "Circle" [] hshape
  exact ⟨hb, _, tree_drawing, rfl, rfl, b, hbuilt, hsame⟩

end Decomposition

end FieldTree
