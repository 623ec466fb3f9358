/-
# A further handler at the end of a chain

A handler at the end of a chain sees only the declarations that no other handler recognises.
Without it these become terminal nodes, which have nothing below them; with it they may become
other nodes, and trees may grow below them.  All else stays as it was: `Arena.counterpart` takes a
node of the smaller tree to the node at the same place in the larger one, and away from these
leaves it keeps values and children.

* `Arena.Linked.map_counterpart` : counterparts of children are the children of the counterpart;
* `Arena.Embedding.sublist_visitPreorder` : a walk through the larger tree passes the counterparts
  in the order of a walk through the smaller one;
* `Decomposition.exists_chain_of_append` : a further handler makes no path shorter;
* `Decomposition.tree_append_refines` : the tree without the handler stands in the tree with it.
-/
import FieldTree.Proofs.Endless
import FieldTree.Proofs.Subtrees
import FieldTree.Proofs.Traversals

namespace FieldTree

/-! ## Nodes at the same place -/

namespace Arena

variable {α : Type} {a b : Arena α} {h p : Handle} {f : Handle → Handle}

/-- The node of another arena at the place of a node: the root for the root, and for a child the
child of that number below the counterpart of its parent. -/
def counterpart (a b : Arena α) (h : Handle) : Handle :=
  match _hp : a.parent? h with
  | none => b.root
  | some p => (b.children (a.counterpart b p)).getD ((a.children p).idxOf h) b.root
termination_by h.index
decreasing_by exact (contains_of_parent? _hp).2

theorem counterpart_of_parent?_eq_none (hp : a.parent? h = none) : a.counterpart b h = b.root := by
  rw [counterpart]
  split <;> simp_all

theorem counterpart_of_parent? (hp : a.parent? h = some p) :
    a.counterpart b h
      = (b.children (a.counterpart b p)).getD ((a.children p).idxOf h) b.root := by
  rw [counterpart]
  split <;> simp_all

theorem Linked.counterpart_root (ha : a.Linked) (b : Arena α) :
    a.counterpart b a.root = b.root :=
  counterpart_of_parent?_eq_none ((ha.orphan a.root (contains_root a)).2 rfl)

/-- **The counterparts of the children of a node are the children of its counterpart**, if these
are as many. -/
theorem Linked.map_counterpart (ha : a.Linked)
    (hlength : (b.children (a.counterpart b h)).length = (a.children h).length) :
    (a.children h).map (a.counterpart b) = b.children (a.counterpart b h) := by
  apply List.ext_getElem
  · rw [List.length_map, hlength]
  · intro i hi hi'
    rw [List.length_map] at hi
    have hparent : a.parent? (a.children h)[i] = some h :=
      (ha.agree _ h).1 (List.getElem_mem hi)
    rw [List.getElem_map, counterpart_of_parent? hparent, (ha.nodup h).idxOf_getElem i hi,
      List.getD_eq_getElem?_getD, List.getElem?_eq_getElem hi', Option.getD_some]

/-- Only nodes have children. -/
theorem contains_of_children_ne_nil (hne : a.children h ≠ []) : a.contains h = true := by
  by_contra hc
  rw [Bool.not_eq_true] at hc
  rw [children, slot?_of_not_contains hc] at hne
  exact hne rfl

/-! ## Embeddings -/

/-- A map of handles embeds an arena into another: it takes nodes to nodes, and the children of a
node that has any, in order, to all children of its image. -/
structure Embedding (a b : Arena α) (f : Handle → Handle) : Prop where
  contains : ∀ h, a.contains h = true → b.contains (f h) = true
  children : ∀ h, a.children h ≠ [] → b.children (f h) = (a.children h).map f

/-- A walk visits what the upper part of its stack stands for before the lower part. -/
theorem visitPreorder_append (a : Arena α) (upper lower : List Handle) :
    a.visitPreorder (upper ++ lower) = a.visitPreorder upper ++ a.visitPreorder lower := by
  simp only [visitPreorder_eq, List.filterMap_append, Rose.preorderAll_eq_flatMap,
    List.flatMap_append, List.map_append]

/-- A walk visits the node on top of its stack and goes on with its children. -/
theorem visitPreorder_cons (hc : a.contains h = true) (stack : List Handle) :
    a.visitPreorder (h :: stack) = h :: a.visitPreorder (a.children h ++ stack) := by
  obtain ⟨s, hs⟩ := exists_slot? hc
  have hnext : a.nextPreorder (h :: stack) = some (h, a.children h ++ stack) := by
    rw [nextPreorder, children_of_slot? hs, hs]
  rw [visitPreorder]
  split <;> simp_all

/-- **A walk through the larger arena passes the images in the order of a walk through the smaller
one.** -/
theorem Embedding.sublist_visitPreorder (hf : Embedding a b f) (stack : List Handle)
    (hstack : ∀ h ∈ stack, a.contains h = true) :
    ((a.visitPreorder stack).map f).Sublist (b.visitPreorder (stack.map f)) := by
  fun_induction visitPreorder a stack with
  | case1 stack hn => exact List.nil_sublist _
  | case2 stack h after hn ih =>
    cases stack with
    | nil => cases hn
    | cons g rest =>
      rw [List.forall_mem_cons] at hstack
      obtain ⟨hg, hrest⟩ := hstack
      obtain ⟨s, hs⟩ := exists_slot? hg
      obtain ⟨rfl, rfl⟩ : g = h ∧ a.children g ++ rest = after := by
        simpa [nextPreorder, hs, children_of_slot? hs] using hn
      have hafter := ih fun c hc =>
        (List.mem_append.1 hc).elim contains_of_mem_children (hrest c)
      rw [List.map_cons, List.map_cons, visitPreorder_cons (hf.contains g hg)]
      apply List.Sublist.cons_cons
      by_cases hleaf : a.children g = []
      · -- What stands below the image of a leaf comes in between.
        rw [hleaf, List.nil_append] at hafter ⊢
        rw [visitPreorder_append]
        exact hafter.trans (List.sublist_append_right _ _)
      · rw [hf.children g hleaf, ← List.map_append]
        exact hafter

/-- An embedding that takes the root to the root keeps the order of the nodes. -/
theorem Embedding.sublist_preorder (hf : Embedding a b f) (hroot : f a.root = b.root) :
    (a.preorder.map f).Sublist b.preorder := by
  have hwalk := hf.sublist_visitPreorder [a.root]
    (List.forall_mem_singleton.2 (contains_root a))
  rwa [List.map_singleton, hroot] at hwalk

/-- Nothing comes twice in the larger arena, so no two nodes have one image. -/
theorem Embedding.injective (hf : Embedding a b f) (hroot : f a.root = b.root) (ha : a.Linked)
    (hb : b.Linked) {g : Handle} (hg : a.contains g = true) (hh : a.contains h = true)
    (heq : f g = f h) : g = h := by
  have hnodup : (a.preorder.map f).Nodup := (hf.sublist_preorder hroot).nodup hb.nodup_preorder
  exact List.inj_on_of_nodup_map hnodup (ha.mem_preorder_iff.2 hg) (ha.mem_preorder_iff.2 hh) heq

end Arena

namespace Handler

variable {ctx : Introspection} {handlers : List Handler} {further : Handler} {d : Declaration}

/-! ## What a further handler changes -/

/-- What a chain recognises, a longer one makes in the same way. -/
theorem node_append_of_recognized (hr : handlers.find? (·.recognizes d) ≠ none) (parent : Node) :
    node ctx (handlers ++ [further]) parent d = node ctx handlers parent d := by
  obtain ⟨handler, hfind⟩ := Option.ne_none_iff_exists'.1 hr
  rw [node, node, List.find?_append, hfind]
  rfl

/-- What falls through a chain is left to the further handler alone. -/
theorem node_append_of_fallen (hr : handlers.find? (·.recognizes d) = none) (parent : Node) :
    node ctx (handlers ++ [further]) parent d = node ctx [further] parent d := by
  rw [node, node, List.find?_append, hr]
  rfl

/-- What a chain does not recognise becomes a terminal node. -/
theorem node_of_fallen (hr : handlers.find? (·.recognizes d) = none) (parent : Node) :
    node ctx handlers parent d = Node.terminal parent d := by
  rw [node, hr]

/-- A further handler that makes its nodes of the declaration, if it recognises it, keeps the name
and the declaration of the terminal node. -/
theorem node_singleton_of_ofDeclaration (ctx : Introspection) {parent : Node}
    (hmakes : further.recognizes d = true →
      ∃ kind target, further.create ctx parent d = Node.ofDeclaration kind parent d target) :
    (node ctx [further] parent d).name = d.name ∧
      (node ctx [further] parent d).declaration = some d := by
  rw [node, List.find?_singleton]
  by_cases hr : further.recognizes d = true
  · obtain ⟨kind, target, hcreate⟩ := hmakes hr
    rw [if_pos hr]
    show (further.create ctx parent d).name = _ ∧ (further.create ctx parent d).declaration = _
    rw [hcreate]
    exact ⟨rfl, rfl⟩
  · rw [if_neg hr]
    exact ⟨rfl, rfl⟩

end Handler

namespace Decomposition

variable {ctx : Introspection} {handlers : List Handler} {further : Handler} {x : Node}
  {symbol : String} {d : Declaration}

/-! ## The declarations below a node -/

/-- The declarations that the nodes below a node are made of, each with the symbol that owns it. -/
def sources (ctx : Introspection) (x : Node) : List (String × Declaration) :=
  match x.symbols ctx with
  | [] => []
  | symbol :: _ => (Member.properties ((ctx.members symbol).getD [])).map (symbol, ·)

/-- Below a node stands one node for each of its declarations. -/
theorem offspring_eq_map_sources (p : Decomposition) (x : Node) :
    p.offspring x = (sources p.ctx x).map fun source => p.child x source.1 source.2 := by
  rw [offspring_eq, sources]
  cases x.symbols p.ctx with
  | nil => rfl
  | cons symbol rest =>
    simp only [List.map_map]
    cases p.ctx.members symbol with
    | none => rfl
    | some members => rfl

/-- The decomposition with a chain of handlers and without a limit. -/
abbrev unlimited (ctx : Introspection) (handlers : List Handler) : Decomposition :=
  ⟨ctx, handlers, none⟩

theorem child_append_of_recognized (hr : handlers.find? (·.recognizes d) ≠ none) :
    (unlimited ctx (handlers ++ [further])).child x symbol d
      = (unlimited ctx handlers).child x symbol d := by
  rw [child, child, Handler.node_append_of_recognized hr]

/-- Nothing stands below a node that no handler has made. -/
theorem offspring_child_of_fallen (hr : handlers.find? (·.recognizes d) = none) :
    (unlimited ctx handlers).offspring ((unlimited ctx handlers).child x symbol d) = [] := by
  rw [child, Handler.node_of_fallen hr]
  rfl

/-! ## Levels -/

/-- **A further handler makes no path shorter**: only the last node of a path can be one that the
other handlers have not made. -/
theorem exists_chain_of_append (further : Handler) (steps : List Node) (x : Node)
    (hchain : (x :: steps).IsChain fun x y => y ∈ (unlimited ctx handlers).offspring x) :
    ∃ steps' : List Node, steps'.length = steps.length ∧ (x :: steps').IsChain fun x y =>
      y ∈ (unlimited ctx (handlers ++ [further])).offspring x := by
  induction steps generalizing x with
  | nil => exact ⟨[], rfl, .singleton x⟩
  | cons y rest ih =>
    obtain ⟨hy, hrest⟩ := List.isChain_cons_cons.1 hchain
    rw [offspring_eq_map_sources, List.mem_map] at hy
    obtain ⟨⟨symbol, d⟩, hsource, rfl⟩ := hy
    dsimp only at hrest ⊢
    have hnext : (unlimited ctx (handlers ++ [further])).child x symbol d
        ∈ (unlimited ctx (handlers ++ [further])).offspring x := by
      rw [offspring_eq_map_sources, List.mem_map]
      exact ⟨(symbol, d), hsource, rfl⟩
    by_cases hr : handlers.find? (·.recognizes d) = none
    · -- The path ends here, since there is nothing below such a node.
      cases rest with
      | nil =>
        exact ⟨[(unlimited ctx (handlers ++ [further])).child x symbol d], rfl,
          List.isChain_cons_cons.2 ⟨hnext, .singleton _⟩⟩
      | cons z rest =>
        have hz := (List.isChain_cons_cons.1 hrest).1
        rw [offspring_child_of_fallen hr] at hz
        cases hz
    · obtain ⟨steps', hlength, hchain'⟩ := ih _ hrest
      rw [child_append_of_recognized hr] at hnext
      exact ⟨(unlimited ctx handlers).child x symbol d :: steps',
        by rw [List.length_cons, List.length_cons, hlength],
        List.isChain_cons_cons.2 ⟨hnext, hchain'⟩⟩

/-- If a root unfolds within some levels with a further handler, then it does so without it. -/
theorem exists_unfold_of_append {levels : Nat} {root : Node} {u : Rose Node}
    (hu : Rose.unfold (unlimited ctx (handlers ++ [further])).offspring levels root = .ok u) :
    ∃ t, Rose.unfold (unlimited ctx handlers).offspring levels root = .ok t := by
  cases hunfold : Rose.unfold (unlimited ctx handlers).offspring levels root with
  | ok t => exact ⟨t, rfl⟩
  | error path =>
    obtain ⟨steps, hlength, hchain⟩ := Rose.exists_unfold_eq_error_iff.1 ⟨path, hunfold⟩
    obtain ⟨steps', hlength', hchain'⟩ := exists_chain_of_append further steps root hchain
    obtain ⟨path', hpath'⟩ :=
      Rose.exists_unfold_eq_error_iff.2 ⟨steps', hlength'.trans hlength, hchain'⟩
    rw [hu] at hpath'
    cases hpath'

/-! ## Built arenas -/

/-- An arena is built from a root: its links agree, the root holds the given node, and below every
node stands what belongs there. -/
structure Built (p : Decomposition) (root : Node) (a : Arena Node) : Prop where
  linked : a.Linked
  root : a.value? a.root = some root
  below : ∀ h x, a.value? h = some x → (a.children h).map a.value? = (p.offspring x).map some

theorem built_ofTree {p : Decomposition} {t : Rose Node} (ht : t.Unfolds p.offspring) :
    p.Built t.value (.ofTree 0 t) :=
  ⟨Arena.linked_ofTree 0 t, Arena.value?_root_ofTree 0 t, fun _ _ => Arena.children_ofTree 0 ht⟩

/-- A node was made of a declaration: the one at its place among those for its parent. -/
def MadeOf (ctx : Introspection) (a : Arena Node) (h : Handle) (x : Node) (symbol : String)
    (d : Declaration) : Prop :=
  ∃ (parent : Handle) (i : Nat), a.value? parent = some x ∧ (a.children parent)[i]? = some h ∧
    (sources ctx x)[i]? = some (symbol, d)

section Built

variable {p q : Decomposition} {root : Node} {a b : Arena Node} {h : Handle}

/-- Below a node stands one value for each declaration. -/
theorem Built.map_value?_children (ha : p.Built root a) (hx : a.value? h = some x) :
    (a.children h).map a.value?
      = (sources p.ctx x).map fun source => some (p.child x source.1 source.2) := by
  rw [ha.below h x hx, offspring_eq_map_sources, List.map_map]
  rfl

theorem Built.length_children (ha : p.Built root a) (hx : a.value? h = some x) :
    (a.children h).length = (sources p.ctx x).length := by
  have hlength := congrArg List.length (ha.map_value?_children hx)
  rwa [List.length_map, List.length_map] at hlength

/-- A node that was made of a declaration is what the handlers make of it. -/
theorem Built.value?_of_madeOf (ha : p.Built root a) (hmade : MadeOf p.ctx a h x symbol d) :
    a.value? h = some (p.child x symbol d) := by
  obtain ⟨parent, i, hx, hchild, hsource⟩ := hmade
  have hvalue := congrArg (·[i]?) (ha.map_value?_children hx)
  simp only [List.getElem?_map, hchild, hsource, Option.map_some, Option.some.injEq] at hvalue
  exact hvalue

/-- Every node but the root was made of a declaration, below an older node. -/
theorem Built.exists_madeOf (ha : p.Built root a) (hc : a.contains h = true) (hne : h ≠ a.root) :
    ∃ x symbol d, MadeOf p.ctx a h x symbol d := by
  cases hp : a.parent? h with
  | none => exact absurd ((ha.linked.orphan h hc).1 hp) hne
  | some parent =>
    obtain ⟨i, hi, hchild⟩ := List.getElem_of_mem ((ha.linked.agree h parent).2 hp)
    obtain ⟨x, hx⟩ := Arena.exists_value? (Arena.contains_of_parent? hp).1
    have hi' : i < (sources p.ctx x).length := by rwa [← ha.length_children hx]
    exact ⟨x, _, _, parent, i, hx, by rw [List.getElem?_eq_getElem hi, hchild],
      List.getElem?_eq_getElem hi'⟩

/-- Below a node and its counterpart, if they have the same value, the children are
counterparts. -/
theorem Built.children_counterpart (ha : p.Built root a) (hb : q.Built root b)
    (hctx : q.ctx = p.ctx) (hx : a.value? h = some x) (hy : b.value? (a.counterpart b h) = some x) :
    b.children (a.counterpart b h) = (a.children h).map (a.counterpart b) := by
  refine (ha.linked.map_counterpart ?_).symm
  rw [ha.length_children hx, hb.length_children hy, hctx]

end Built

/-! ## The smaller tree in the larger one -/

section Appended

variable {root : Node} {a b : Arena Node} {h parent : Handle}

/-- The counterpart of a child was made of the same declaration as the child, if their parents
have the same value. -/
theorem MadeOf.counterpart (ha : (unlimited ctx handlers).Built root a)
    (hb : (unlimited ctx (handlers ++ [further])).Built root b)
    (hkept : ∀ parent, h ∈ a.children parent →
      b.value? (a.counterpart b parent) = a.value? parent)
    (hmade : MadeOf ctx a h x symbol d) : MadeOf ctx b (a.counterpart b h) x symbol d := by
  obtain ⟨parent, i, hx, hchild, hsource⟩ := hmade
  have hy : b.value? (a.counterpart b parent) = some x := by
    rw [hkept parent (List.mem_of_getElem? hchild), hx]
  refine ⟨a.counterpart b parent, i, hy, ?_, hsource⟩
  rw [ha.children_counterpart hb rfl hx hy, List.getElem?_map, hchild]
  rfl

/-- **The root and every node that has children have the value of their counterparts.** -/
theorem value?_counterpart (ha : (unlimited ctx handlers).Built root a)
    (hb : (unlimited ctx (handlers ++ [further])).Built root b) {h : Handle}
    (hh : h = a.root ∨ a.children h ≠ []) : b.value? (a.counterpart b h) = a.value? h := by
  by_cases hroot : h = a.root
  · rw [hroot, ha.linked.counterpart_root, ha.root, hb.root]
  · have hinner : a.children h ≠ [] := hh.resolve_left hroot
    have hc : a.contains h = true := Arena.contains_of_children_ne_nil hinner
    obtain ⟨x, symbol, d, hmade⟩ := ha.exists_madeOf hc hroot
    -- The parent has a child, so it has been looked at before.
    have hmade' := hmade.counterpart ha hb fun parent hmem =>
      have hparent : a.parent? h = some parent := (ha.linked.agree h parent).1 hmem
      have holder := (Arena.contains_of_parent? hparent).2
      value?_counterpart ha hb (Or.inr (List.ne_nil_of_mem hmem))
    have hvalue := ha.value?_of_madeOf hmade
    have hr : handlers.find? (·.recognizes d) ≠ none := by
      intro hr
      have hbelow := ha.below h _ hvalue
      rw [offspring_child_of_fallen hr, List.map_nil, List.map_eq_nil_iff] at hbelow
      exact hinner hbelow
    rw [hb.value?_of_madeOf hmade', hvalue, child_append_of_recognized hr]
termination_by h.index

/-- Every node was made of the same declaration as its counterpart. -/
theorem madeOf_counterpart (ha : (unlimited ctx handlers).Built root a)
    (hb : (unlimited ctx (handlers ++ [further])).Built root b)
    (hmade : MadeOf ctx a h x symbol d) : MadeOf ctx b (a.counterpart b h) x symbol d :=
  hmade.counterpart ha hb fun _ hmem => value?_counterpart ha hb (Or.inr (List.ne_nil_of_mem hmem))

/-- The tree without a further handler is embedded in the tree with it. -/
theorem embedding_counterpart (ha : (unlimited ctx handlers).Built root a)
    (hb : (unlimited ctx (handlers ++ [further])).Built root b) :
    Arena.Embedding a b (a.counterpart b) := by
  refine ⟨?_, ?_⟩
  · intro h hc
    by_cases hroot : h = a.root
    · rw [hroot, ha.linked.counterpart_root]
      exact Arena.contains_root b
    · obtain ⟨x, symbol, d, hmade⟩ := ha.exists_madeOf hc hroot
      exact Arena.contains_of_value? (hb.value?_of_madeOf (madeOf_counterpart ha hb hmade))
  · intro h hinner
    obtain ⟨x, hx⟩ := Arena.exists_value? (Arena.contains_of_children_ne_nil hinner)
    exact ha.children_counterpart hb rfl hx
      ((value?_counterpart ha hb (Or.inr hinner)).trans hx)

end Appended

/-- A map of handles keeps the value of a node, and takes its children to all children of the
image. -/
def Keeps (a b : Arena Node) (f : Handle → Handle) (h : Handle) : Prop :=
  b.value? (f h) = a.value? h ∧ b.children (f h) = (a.children h).map f

/-- What a further handler does to a tree: a map of handles takes the nodes of the tree without it
to nodes of the tree with it, in the same order, and keeps all but some leaves. -/
structure Refines (ctx : Introspection) (handlers : List Handler) (further : Handler)
    (a b : Arena Node) (f : Handle → Handle) : Prop where
  root : f a.root = b.root
  order : (a.preorder.map f).Sublist b.preorder
  injective : ∀ g h, a.contains g = true → a.contains h = true → f g = f h → g = h
  /-- The root is kept, and so is every node that has children. -/
  inner : ∀ h, h = a.root ∨ a.children h ≠ [] → Keeps a b f h
  /-- Every node but the root was made of a declaration. -/
  made : ∀ h, a.contains h = true → h ≠ a.root → ∃ x symbol d, MadeOf ctx a h x symbol d
  /-- What a handler of the chain has made is kept. -/
  handled : ∀ h x symbol d handler, MadeOf ctx a h x symbol d →
    handlers.find? (·.recognizes d) = some handler →
    a.value? h = some { handler.create ctx x d with owner := some symbol } ∧ Keeps a b f h
  /-- All other nodes are terminal leaves, which keep their name, owner and declaration if the
  further handler makes its nodes of the declaration. -/
  fallen : ∀ h x symbol d, MadeOf ctx a h x symbol d → handlers.find? (·.recognizes d) = none →
    a.value? h = some { Node.terminal x d with owner := some symbol } ∧ a.children h = [] ∧
    ∃ y, b.value? (f h) = some y ∧
      ((further.recognizes d = true →
          ∃ kind target, further.create ctx x d = Node.ofDeclaration kind x d target) →
        y.name = d.name ∧ y.owner = some symbol ∧ y.declaration = some d)

/-- The counterparts of nodes show what a further handler does. -/
theorem refines_counterpart {root : Node} {a b : Arena Node}
    (ha : (unlimited ctx handlers).Built root a)
    (hb : (unlimited ctx (handlers ++ [further])).Built root b) :
    Refines ctx handlers further a b (a.counterpart b) := by
  have hroot := ha.linked.counterpart_root b
  have hembedding := embedding_counterpart ha hb
  have hkeeps : ∀ h x, a.value? h = some x → b.value? (a.counterpart b h) = some x →
      Keeps a b (a.counterpart b) h := by
    intro h x hx hy
    exact ⟨hy.trans hx.symm, ha.children_counterpart hb rfl hx hy⟩
  refine ⟨hroot, hembedding.sublist_preorder hroot,
    fun g h hg hh => hembedding.injective hroot ha.linked hb.linked hg hh, ?_,
    fun h hc hne => ha.exists_madeOf hc hne, ?_, ?_⟩
  · rintro h (rfl | hinner)
    · exact hkeeps a.root root ha.root (by rw [hroot, hb.root])
    · exact ⟨value?_counterpart ha hb (Or.inr hinner), hembedding.children h hinner⟩
  · intro h x symbol d handler hmade hr
    have hvalue := ha.value?_of_madeOf hmade
    have hvalue' := hb.value?_of_madeOf (madeOf_counterpart ha hb hmade)
    rw [child_append_of_recognized (by rw [hr]; exact Option.some_ne_none handler)] at hvalue'
    refine ⟨?_, hkeeps h _ hvalue hvalue'⟩
    rw [hvalue, child, Handler.node, hr]
  · intro h x symbol d hmade hr
    have hvalue := ha.value?_of_madeOf hmade
    have hvalue' := hb.value?_of_madeOf (madeOf_counterpart ha hb hmade)
    refine ⟨by rw [hvalue, child, Handler.node_of_fallen hr], ?_, _, hvalue', ?_⟩
    · have hbelow := ha.below h _ hvalue
      rwa [offspring_child_of_fallen hr, List.map_nil, List.map_eq_nil_iff] at hbelow
    · intro hmakes
      obtain ⟨hname, hdeclaration⟩ := Handler.node_singleton_of_ofDeclaration ctx hmakes
      rw [child, Handler.node_append_of_fallen hr]
      exact ⟨hname, rfl, hdeclaration⟩

/-- **A further handler at the end of a chain only refines leaves that fell through.**  If a root
decomposes with it, then it does so without it, at the same limit or without one, and the smaller
tree stands in the larger one: in the same order, with the same children below every node that has
any, and with the same values but for terminal leaves that no other handler has made. -/
theorem tree_append_refines (ctx : Introspection) (handlers : List Handler) (further : Handler)
    (root : Node) :
    (∀ maxDepth b, (tree ⟨ctx, handlers ++ [further], maxDepth⟩ root).outcome = .ok b →
      ∃ a f, (tree ⟨ctx, handlers, maxDepth⟩ root).outcome = .ok a ∧
        Refines ctx handlers further a b f) ∧
    ∀ b, EndsWith ⟨ctx, handlers ++ [further], none⟩ root (.ok b) →
      ∃ a f, EndsWith ⟨ctx, handlers, none⟩ root (.ok a) ∧
        Refines ctx handlers further a b f := by
  have hrefines : ∀ levels u,
      Rose.unfold (unlimited ctx (handlers ++ [further])).offspring levels root = .ok u →
      ∃ t f, Rose.unfold (unlimited ctx handlers).offspring levels root = .ok t ∧
        Refines ctx handlers further (.ofTree 0 t) (.ofTree 0 u) f := by
    intro levels u hu
    obtain ⟨t, ht⟩ := exists_unfold_of_append hu
    obtain ⟨hvalue, hunfolds, -⟩ := Rose.unfold_eq_ok.1 ht
    obtain ⟨hvalue', hunfolds', -⟩ := Rose.unfold_eq_ok.1 hu
    exact ⟨t, _, ht, refines_counterpart (hvalue ▸ built_ofTree hunfolds)
      (hvalue' ▸ built_ofTree hunfolds')⟩
  refine ⟨?_, ?_⟩
  · intro maxDepth b hb
    obtain ⟨u, hu, rfl⟩ := tree_eq_ok.1 hb
    obtain ⟨t, f, ht, hf⟩ := hrefines _ u hu
    exact ⟨.ofTree 0 t, f, tree_eq_ok.2 ⟨t, ht, rfl⟩, hf⟩
  · intro b hb
    obtain ⟨u, hvalue, hunfolds, hout⟩ := endsWith_iff.1 hb
    obtain rfl := Except.ok.inj hout
    -- A finite unfolding is found within as many levels as it is deep.
    have hu := Rose.unfold_eq_ok.2 ⟨hvalue, hunfolds, Nat.le_succ u.depth⟩
    obtain ⟨t, f, ht, hf⟩ := hrefines _ u hu
    obtain ⟨hvalue', hunfolds', -⟩ := Rose.unfold_eq_ok.1 ht
    exact ⟨.ofTree 0 t, f, endsWith_iff.2 ⟨t, hvalue', hunfolds', rfl⟩, hf⟩

/-- With a handler for arrays the second field of a pair gets a node below it, and the four nodes
that stood there without it keep their places. -/
theorem tree_append_refines_pair :
    ∃ b, (tree ⟨pairAndList, [Handler.object] ++ [Handler.array], some 2⟩
        (.root "Pair")).outcome = .ok b ∧ b.size = 5 ∧
      (∃ a f, (tree ⟨pairAndList, [Handler.object], some 2⟩ (.root "Pair")).outcome = .ok a ∧
        a.size = 4 ∧ Refines pairAndList [Handler.object] Handler.array a b f) ∧
      EndsWith ⟨pairAndList, [Handler.object] ++ [Handler.array], none⟩ (.root "Pair") (.ok b) ∧
      ∃ a f, EndsWith ⟨pairAndList, [Handler.object], none⟩ (.root "Pair") (.ok a) ∧
        Refines pairAndList [Handler.object] Handler.array a b f := by
  obtain ⟨hlimited, hunlimited⟩ :=
    tree_append_refines pairAndList [Handler.object] Handler.array (.root "Pair")
  have hsize : (tree ⟨pairAndList, [Handler.object], some 2⟩ (.root "Pair")).outcome.map Arena.size
      = .ok 4 := by decide +kernel
  have hsize' : (tree ⟨pairAndList, [Handler.object] ++ [Handler.array], some 2⟩
      (.root "Pair")).outcome.map Arena.size = .ok 5 := by decide +kernel
  cases hout : (tree ⟨pairAndList, [Handler.object] ++ [Handler.array], some 2⟩
      (.root "Pair")).outcome with
  | error failure =>
    rw [hout] at hsize'
    cases hsize'
  | ok b =>
    rw [hout] at hsize'
    obtain ⟨a, f, ha, hf⟩ := hlimited (some 2) b hout
    rw [ha] at hsize
    obtain ⟨u, hu, hplanted⟩ := tree_eq_ok.1 hout
    obtain ⟨hvalue, hunfolds, -⟩ := Rose.unfold_eq_ok.1 hu
    have hends : EndsWith ⟨pairAndList, [Handler.object] ++ [Handler.array], none⟩ (.root "Pair")
        (.ok b) := endsWith_iff.2 ⟨u, hvalue, hunfolds, congrArg Except.ok hplanted⟩
    exact ⟨b, rfl, Except.ok.inj hsize', ⟨a, f, ha, Except.ok.inj hsize, hf⟩, hends,
      hunlimited b hends⟩

end Decomposition

end FieldTree
