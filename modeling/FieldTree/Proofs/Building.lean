/-
# What a decomposition builds

The decomposition of a type grows an arena node by node.  `Decomposition.offspring` says what
belongs below one node, by the answers about its type and the handlers alone; the unfolding of
the root by `offspring` is the tree that ought to be built.

* `Decomposition.tree_outcome` : the outcome is the planted unfolding, or the failure at the
  first path that goes on below the last level;
* `Decomposition.unfolded_ofTree` : a planted unfolding holds every node with its offspring below
  it, in order, and nothing else;
* `Decomposition.tree_refines_unfolding` : so does the arena that is built;
* `Decomposition.tree_depth_limit` : a limit is exceeded exactly when there is a chain of more
  steps than it allows, and is of no consequence otherwise.
-/
import FieldTree.Decomposition
import FieldTree.Proofs.Planting

namespace FieldTree.Decomposition

variable {p : Decomposition} {a b : Arena Node} {h : Handle}

/-! ## What belongs below a node -/

/-- The nodes that belong below a node: one for each property among the members of the first
symbol of its target, made by the first handler that recognises it or else terminal, and owned
by that symbol. -/
def offspring (p : Decomposition) (x : Node) : List Node :=
  match x.target with
  | none => []
  | some target =>
    match p.ctx.symbols target with
    | [] => []
    | symbol :: _ =>
      match p.ctx.members symbol with
      | none => []
      | some members =>
        (members.filterMap fun m => m.declaration.filter fun d => d.kind = .property).map fun d =>
          { (match p.handlers.find? fun handler => handler.recognizes d with
              | some handler => handler.create p.ctx x d
              | none => Node.terminal x d) with owner := some symbol }

/-- What goes on below the fields of a node, if there may be any. -/
def deeper (p : Decomposition) : Nat → Option (Handle → Arena Node → Traced (Arena Node))
  | 0 => none
  | levels + 1 => some (p.grow levels)

/-- The offspring of a node are the children that the decomposition makes for it. -/
theorem offspring_eq (p : Decomposition) (x : Node) :
    p.offspring x = match x.symbols p.ctx with
      | [] => []
      | symbol :: _ =>
        match p.ctx.members symbol with
        | none => []
        | some members => (Member.properties members).map (p.child x symbol) := by
  rw [offspring, Node.symbols]
  cases x.target <;> rfl

/-- Nothing belongs below a node whose type stands for no symbol. -/
theorem offspring_of_unresolved {x : Node} (hsymbols : x.symbols p.ctx = []) :
    p.offspring x = [] := by
  rw [offspring_eq, hsymbols]

/-- Nothing belongs below a node whose symbol has no members. -/
theorem offspring_of_memberless {x : Node} {symbol : String} {rest : List String}
    (hsymbols : x.symbols p.ctx = symbol :: rest) (hmembers : p.ctx.members symbol = none) :
    p.offspring x = [] := by
  rw [offspring_eq, hsymbols]
  simp only [hmembers]

/-- Below a node belong the children that are made of the properties of its symbol. -/
theorem offspring_of_members {x : Node} {symbol : String} {rest : List String}
    {members : List Member} (hsymbols : x.symbols p.ctx = symbol :: rest)
    (hmembers : p.ctx.members symbol = some members) :
    p.offspring x = (Member.properties members).map (p.child x symbol) := by
  rw [offspring_eq, hsymbols]
  simp only [hmembers]

/-- What belongs below a node depends only on its first symbol, the members of this symbol, and
the nodes that are made of them. -/
theorem offspring_congr {q : Decomposition} {x y : Node}
    (hsymbol : (y.symbols q.ctx).head? = (x.symbols p.ctx).head?)
    (hmembers : ∀ symbol, (x.symbols p.ctx).head? = some symbol →
      q.ctx.members symbol = p.ctx.members symbol)
    (hchild : ∀ symbol d, q.child y symbol d = p.child x symbol d) :
    q.offspring y = p.offspring x := by
  rw [offspring_eq, offspring_eq]
  cases hx : x.symbols p.ctx with
  | nil =>
    rw [hx, List.head?_nil, List.head?_eq_none_iff] at hsymbol
    rw [hsymbol]
  | cons symbol rest =>
    rw [hx] at hsymbol hmembers
    obtain ⟨rest', hy⟩ := List.head?_eq_some_iff.1 hsymbol
    simp only [hy, hmembers symbol rfl]
    cases p.ctx.members symbol with
    | none => rfl
    | some members =>
      apply List.map_congr_left
      intro d _
      exact hchild symbol d

theorem grow_eq (levels : Nat) {x : Node} (hx : a.value? h = some x) :
    p.grow levels h a = match x.symbols p.ctx with
      | [] => .ok a
      | symbol :: _ => (Traced.note symbol).andThen fun _ =>
        match p.ctx.members symbol with
        | none => .ok a
        | some members =>
          p.addFields (p.deeper levels) h x symbol a (Member.properties members) := by
  cases levels with
  | zero => rw [grow, hx]; rfl
  | succ levels => rw [grow, hx]; rfl

/-- Growing below a node looks up its first symbol, if it has any, and adds the fields that belong
there. -/
theorem grow_eq_addFields (levels : Nat) {x : Node} (hx : a.value? h = some x) :
    ∃ symbol ds, p.offspring x = ds.map (p.child x symbol) ∧
      p.grow levels h a = ⟨(x.symbols p.ctx).head?.toList
          ++ (p.addFields (p.deeper levels) h x symbol a ds).lookups,
        (p.addFields (p.deeper levels) h x symbol a ds).outcome⟩ := by
  rw [offspring_eq, grow_eq levels hx]
  cases x.symbols p.ctx with
  | nil => exact ⟨"", [], rfl, by rw [addFields]; rfl⟩
  | cons symbol rest =>
    simp only [Traced.note_andThen]
    cases p.ctx.members symbol with
    | none => exact ⟨symbol, [], rfl, by rw [addFields]; rfl⟩
    | some members => exact ⟨symbol, Member.properties members, rfl, rfl⟩

theorem grow_outcome_eq (levels : Nat) {x : Node} (hx : a.value? h = some x) :
    ∃ symbol ds, p.offspring x = ds.map (p.child x symbol) ∧
      (p.grow levels h a).outcome = (p.addFields (p.deeper levels) h x symbol a ds).outcome := by
  obtain ⟨symbol, ds, hds, hgrow⟩ := grow_eq_addFields (p := p) levels hx
  exact ⟨symbol, ds, hds, by rw [hgrow]⟩

/-! ## One run of the decomposition -/

/-- The names of some nodes with points between them. -/
def namesText (nodes : List Node) : String := ".".intercalate (nodes.map Node.name)

theorem pathText_eq (a : Arena Node) (h : Handle) : pathText a h = namesText (a.trail h) := rfl

/-- A node of the arena takes a field below it. -/
theorem addField_eq {x : Node} (hc : a.contains h = true) (symbol : String) (d : Declaration) :
    ∃ b, a.addChild h (p.child x symbol d) = some (a.next, b) ∧
      p.addField h x symbol d a = .ok (a.next, b) := by
  obtain ⟨b, hadd⟩ := Arena.exists_addChild hc (p.child x symbol d)
  exact ⟨b, hadd, by rw [addField, hadd]⟩

/-- The first field of a row is added and grown to its end before the next one is looked at. -/
theorem addFields_cons {x : Node} {symbol : String} {d : Declaration} {g : Handle}
    (hadd : a.addChild h (p.child x symbol d) = some (g, b))
    (grow : Handle → Arena Node → Traced (Arena Node)) (ds : List Declaration) :
    p.addFields (some grow) h x symbol a (d :: ds)
      = (grow g b).andThen fun c => p.addFields (some grow) h x symbol c ds := by
  have hfield : p.addField h x symbol d a = .ok (g, b) := by rw [addField, hadd]
  show ((p.addField h x symbol d a).andThen fun added =>
    (grow added.1 added.2).andThen fun c => p.addFields (some grow) h x symbol c ds) = _
  rw [hfield, Traced.ok_andThen]

/-- The outcome of adding trees below a node, or of a path below it that goes on too deep. -/
def added (p : Decomposition) (a : Arena Node) (h : Handle) (above : List Node) :
    Except (List Node) (List (Rose Node)) → Except Failure (Arena Node)
  | .ok trees => .ok (a.addTrees h trees)
  | .error path => .error (p.tooDeep (namesText (above ++ path)))

/-- The outcome of adding trees in a row, the first of them already added. -/
theorem added_cons {t : Rose Node} {above : List Node}
    (result : Except (List Node) (List (Rose Node))) :
    p.added (a.addTree h t) h above result
      = p.added a h above (result.map (t :: ·)) := by
  cases result <;> rfl

/-- What goes on below each field of a row makes the trees of the row. -/
theorem addFields_outcome {levels : Nat}
    (hgrow : ∀ {a : Arena Node} {h : Handle} {x : Node} {above : List Node},
      a.value? h = some x → a.trail h = above ++ [x] → (p.grow levels h a).outcome
        = p.added a h above ((Rose.unfold p.offspring levels x).map Rose.children))
    {x : Node} {above : List Node} (symbol : String) (hc : a.contains h = true)
    (htrail : a.trail h = above) (ds : List Declaration) :
    (p.addFields (some (p.grow levels)) h x symbol a ds).outcome
      = p.added a h above ((ds.map (p.child x symbol)).mapM (Rose.unfold p.offspring levels)) := by
  induction ds generalizing a with
  | nil => rfl
  | cons d ds ih =>
    obtain ⟨b, hadd⟩ := Arena.exists_addChild hc (p.child x symbol d)
    have htrail' : b.trail a.next = above ++ [p.child x symbol d] := by
      rw [Arena.trail_addChild hadd, htrail]
    rw [addFields_cons hadd, Traced.outcome_andThen, hgrow (Arena.value?_addChild hadd) htrail',
      List.map_cons, List.mapM_cons]
    cases hunfold : Rose.unfold p.offspring levels (p.child x symbol d) with
    | error path => rfl
    | ok t =>
      have hvalue := (Rose.unfold_eq_ok.1 hunfold).1
      have htree : b.addTrees a.next t.children = a.addTree h t :=
        Arena.addTrees_children (hvalue ▸ hadd)
      -- The node and the path to it are as they were, so the other fields see the same parent.
      have hext := (Arena.addTree_added t hc).extends
      show (p.addFields (some (p.grow levels)) h x symbol (b.addTrees a.next t.children) ds).outcome
        = p.added a h above (((ds.map (p.child x symbol)).mapM (Rose.unfold p.offspring levels)).map
          (t :: ·))
      rw [htree, ih (hext.contains hc) (by rw [hext.trail hc, htrail]), added_cons]

/-- **Growing below a node adds the unfolding of its value**, or fails with the path on which
the unfolding goes on below the last level. -/
theorem grow_outcome (levels : Nat) {x : Node} {above : List Node} (hx : a.value? h = some x)
    (htrail : a.trail h = above ++ [x]) :
    (p.grow levels h a).outcome
      = p.added a h above ((Rose.unfold p.offspring levels x).map Rose.children) := by
  induction levels generalizing a h x above with
  | zero =>
    obtain ⟨symbol, ds, hds, hgrow⟩ := grow_outcome_eq (p := p) 0 hx
    rw [hgrow, Rose.unfold, hds]
    cases ds with
    | nil => rfl
    | cons d ds =>
      -- The failure comes before the field is made, so the path ends at its parent.
      show Except.error (p.tooDeep (pathText a h)) = _
      rw [pathText_eq, htrail]
      rfl
  | succ levels ih =>
    obtain ⟨symbol, ds, hds, hgrow⟩ := grow_outcome_eq (p := p) (levels + 1) hx
    rw [hgrow, deeper, addFields_outcome ih symbol (Arena.contains_of_value? hx) htrail,
      Rose.unfold, hds]
    cases (ds.map (p.child x symbol)).mapM (Rose.unfold p.offspring levels) with
    | ok ts => rfl
    | error path => simp [added, Except.map]

/-- **The outcome of a decomposition**: the unfolding of the root, planted, or the failure on the
path that goes on below the last level. -/
theorem tree_outcome (p : Decomposition) (root : Node) :
    (p.tree root).outcome = match Rose.unfold p.offspring p.levels root with
      | .ok t => .ok (Arena.ofTree 0 t)
      | .error path => .error (p.tooDeep (namesText path)) := by
  have htrail : (Arena.ofRoot 0 root).trail (Arena.ofRoot 0 root).root = [] ++ [root] :=
    Arena.trail_ofRoot 0 root
  rw [tree, grow_outcome p.levels rfl htrail]
  cases hunfold : Rose.unfold p.offspring p.levels root with
  | error path => rfl
  | ok t =>
    show Except.ok _ = Except.ok (Arena.ofTree 0 t)
    rw [Arena.ofTree, (Rose.unfold_eq_ok.1 hunfold).1]

theorem tree_eq_ok {root : Node} :
    (p.tree root).outcome = .ok a ↔
      ∃ t, Rose.unfold p.offspring p.levels root = .ok t ∧ a = Arena.ofTree 0 t := by
  rw [tree_outcome]
  cases Rose.unfold p.offspring p.levels root <;> simp [eq_comm]

theorem tree_eq_error {root : Node} {failure : Failure} :
    (p.tree root).outcome = .error failure ↔
      ∃ path, Rose.unfold p.offspring p.levels root = .error path ∧
        failure = p.tooDeep (namesText path) := by
  rw [tree_outcome]
  cases Rose.unfold p.offspring p.levels root <;> simp [eq_comm]

/-! ## Refinement of the unfolding -/

/-- Whether an arena holds the unfolding of a root, node by node and in order, and nothing else. -/
structure Unfolded (p : Decomposition) (root : Node) (a : Arena Node) : Prop where
  root_eq : a.value? a.root = some root
  children_eq : ∀ h x, a.value? h = some x →
    (a.children h).map a.value? = (p.offspring x).map some
  tree_eq : ∃ t : Rose Node, t.value = root ∧ t.Unfolds p.offspring ∧
    (∀ u : Rose Node, u.value = root → u.Unfolds p.offspring → u = t) ∧
    a.tree.map Prod.snd = t ∧ a.size = t.size
  preorder_eq : a.preorder = (List.range a.size).map (Handle.mk a.id)

/-- The arena that a finite unfolding is planted in holds it. -/
theorem unfolded_ofTree {t : Rose Node} (ht : t.Unfolds p.offspring) :
    p.Unfolded t.value (.ofTree 0 t) where
  root_eq := Arena.value?_root_ofTree 0 t
  children_eq _ _ hx := Arena.children_ofTree 0 ht hx
  tree_eq := ⟨t, rfl, ht, fun _ hu hunfolds => ht.unique hunfolds hu,
    by rw [Arena.tree_ofTree, Rose.map_snd_numbered], Arena.size_ofTree 0 t⟩
  preorder_eq := by rw [Arena.preorder_ofTree, Arena.size_ofTree, Arena.id_ofTree]

/-- **A decomposition builds the unfolding of its root.**  The root holds the given node, below
every node stand exactly its offspring in order, nothing else is in the arena, and handles were
handed out in pre-order.  Every unfolding that ends within the levels is built, and the only
failure is one of depth. -/
theorem tree_refines_unfolding (p : Decomposition) (root : Node) :
    (∀ a, (p.tree root).outcome = .ok a →
      a.value? a.root = some root ∧
      (∀ h x, a.value? h = some x →
        (a.children h).map a.value? = (p.offspring x).map some) ∧
      (∃ t : Rose Node, t.value = root ∧ t.Unfolds p.offspring ∧
        (∀ u : Rose Node, u.value = root → u.Unfolds p.offspring → u = t) ∧
        a.tree.map Prod.snd = t ∧ a.size = t.size) ∧
      a.preorder = (List.range a.size).map (Handle.mk a.id)) ∧
    (∀ t : Rose Node, t.value = root → t.Unfolds p.offspring → t.depth ≤ p.levels + 1 →
      ∃ a, (p.tree root).outcome = .ok a) ∧
    ∀ handle, (p.tree root).outcome ≠ .error (.nodeNotFound handle) := by
  refine ⟨?_, ?_, ?_⟩
  · intro a ha
    obtain ⟨t, ht, rfl⟩ := tree_eq_ok.1 ha
    obtain ⟨rfl, hunfolds, -⟩ := Rose.unfold_eq_ok.1 ht
    have hunfolded := unfolded_ofTree hunfolds
    exact ⟨hunfolded.root_eq, hunfolded.children_eq, hunfolded.tree_eq, hunfolded.preorder_eq⟩
  · intro t hvalue hunfolds hdepth
    exact ⟨_, tree_eq_ok.2 ⟨t, Rose.unfold_eq_ok.2 ⟨hvalue, hunfolds, hdepth⟩, rfl⟩⟩
  · intro handle herror
    obtain ⟨path, -, hfailure⟩ := tree_eq_error.1 herror
    rw [tooDeep] at hfailure
    split at hfailure <;> cases hfailure

/-- Answers about a pair of leaves, with members that are no properties between them, and about
a list that has no end. -/
def pairAndList : Introspection :=
  .ofTables [("Pair", ["Pair", "Leaf"]), ("Leaf", ["Leaf"]), ("List", ["List"])]
    [("Pair", some [.declared ⟨"left", .property, .reference "Leaf", false⟩,
        .declared ⟨"swap", .method, .reference "Pair", false⟩, .synthetic "hidden",
        .declared ⟨"right", .property, .array (.reference "Leaf"), true⟩]),
      ("Leaf", some [.declared ⟨"name", .property, .keyword "string", false⟩]),
      ("List", some [.declared ⟨"size", .property, .keyword "number", false⟩,
        .declared ⟨"next", .property, .reference "List", true⟩])]

/-- The tree of a pair has five nodes, visited in the order in which they were made. -/
theorem tree_refines_unfolding_pair :
    ∃ a, (tree ⟨pairAndList, Handler.defaults, some 2⟩ (.root "Pair")).outcome = .ok a ∧
      a.value? a.root = some (.root "Pair") ∧
      a.preorder = (List.range 5).map (Handle.mk a.id) := by
  have hsize : (tree ⟨pairAndList, Handler.defaults, some 2⟩ (.root "Pair")).outcome.map Arena.size
      = .ok 5 := by decide +kernel
  cases hout : (tree ⟨pairAndList, Handler.defaults, some 2⟩ (.root "Pair")).outcome with
  | error failure =>
    rw [hout] at hsize
    cases hsize
  | ok a =>
    rw [hout] at hsize
    obtain ⟨hroot, -, -, hpreorder⟩ := (tree_refines_unfolding _ _).1 a hout
    have h5 : a.size = 5 := Except.ok.inj hsize
    rw [h5] at hpreorder
    exact ⟨a, rfl, hroot, hpreorder⟩

/-! ## The limit on levels -/

/-- **The limit on levels is exact.**  It is exceeded exactly when a chain of one step more
leads down from the root; the failure names the limit and the first path, in pre-order, to a
node of the last level with a field below it.  A tree that is built stays within the limit, and
every higher limit builds the same tree. -/
theorem tree_depth_limit (ctx : Introspection) (handlers : List Handler) (root : Node) (n : Nat) :
    let p : Decomposition := ⟨ctx, handlers, some n⟩
    ((∃ path limit, (p.tree root).outcome = .error (.depthExceeded path limit)) ↔
      ∃ steps : List Node, steps.length = n + 1 ∧
        (root :: steps).IsChain fun x y => y ∈ p.offspring x) ∧
    (∀ failure, (p.tree root).outcome = .error failure →
      ∃ nodes, (Rose.levelPaths p.offspring n root).find? (Rose.goesOn p.offspring) = some nodes ∧
        nodes.length = n + 1 ∧
        failure = .depthExceeded (".".intercalate (nodes.map Node.name)) n) ∧
    ∀ a, (p.tree root).outcome = .ok a →
      a.depth ≤ n + 1 ∧
      ∀ m, n ≤ m → (Decomposition.tree ⟨ctx, handlers, some m⟩ root).outcome = .ok a := by
  intro p
  refine ⟨?_, ?_, ?_⟩
  · rw [← Rose.exists_unfold_eq_error_iff]
    constructor
    · rintro ⟨path, limit, herror⟩
      obtain ⟨nodes, hnodes, -⟩ := tree_eq_error.1 herror
      exact ⟨nodes, hnodes⟩
    · rintro ⟨nodes, hnodes⟩
      exact ⟨namesText nodes, n, tree_eq_error.2 ⟨nodes, hnodes, rfl⟩⟩
  · intro failure herror
    obtain ⟨nodes, hnodes, rfl⟩ := tree_eq_error.1 herror
    exact ⟨nodes, Rose.unfold_eq_error.1 hnodes, Rose.length_of_unfold_eq_error hnodes, rfl⟩
  · intro a ha
    obtain ⟨t, ht, rfl⟩ := tree_eq_ok.1 ha
    constructor
    · rw [Arena.depth_ofTree]
      exact (Rose.unfold_eq_ok.1 ht).2.2
    · intro m hm
      exact tree_eq_ok.2 ⟨t, Rose.unfold_mono ht hm, rfl⟩

/-- A list without end exceeds a limit of three on a path of four names. -/
theorem tree_depth_limit_list :
    (∃ steps : List Node, steps.length = 4 ∧ (Node.root "List" :: steps).IsChain fun x y =>
      y ∈ offspring ⟨pairAndList, Handler.defaults, some 3⟩ x) ∧
    ∃ failure, (tree ⟨pairAndList, Handler.defaults, some 3⟩ (.root "List")).outcome
        = .error failure ∧
      failure = .depthExceeded "List.next.next.next" 3 ∧
      ∃ nodes : List Node, nodes.length = 4 ∧
        failure = .depthExceeded (".".intercalate (nodes.map Node.name)) 3 := by
  have hfails : (tree ⟨pairAndList, Handler.defaults, some 3⟩ (.root "List")).outcome.map Arena.size
      = .error (.depthExceeded "List.next.next.next" 3) := by decide +kernel
  obtain ⟨hchain, herror, -⟩ := tree_depth_limit pairAndList Handler.defaults (.root "List") 3
  cases hout : (tree ⟨pairAndList, Handler.defaults, some 3⟩ (.root "List")).outcome with
  | ok a =>
    rw [hout] at hfails
    cases hfails
  | error failure =>
    rw [hout] at hfails
    obtain rfl : failure = .depthExceeded "List.next.next.next" 3 := Except.error.inj hfails
    obtain ⟨nodes, -, hlength, hnodes⟩ := herror _ hout
    exact ⟨hchain.1 ⟨_, _, hout⟩, _, rfl, rfl, nodes, hlength, hnodes⟩

end FieldTree.Decomposition
