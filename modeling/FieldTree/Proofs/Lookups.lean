/-
# What a decomposition looks up

Growing a tree looks up the members of one symbol for each node whose type stands for any, before
it adds the fields of the node.  So the trace of a decomposition is a pre-order walk through the
unfolding of its root.  The unfolding may have no end; `Rose.Walks` is a walk through a part of it,
from one stack of nodes to another, each node given by the path to it.

* `Rose.Unfolds.walks` : a walk through a finite unfolding comes to its nodes in pre-order;
* `Decomposition.grow_looks` : the trace of a decomposition is that of a walk, which goes through
  or stops at the first node of the last level that has something below it;
* `Decomposition.runsWith_iff` : the recursion without a limit looks up the same;
* `Decomposition.tree_lookups` : what is looked up for a tree, and what before a failure.
-/
import FieldTree.Proofs.Endless

namespace FieldTree

/-! ## Walks through an unfolding -/

namespace Rose

variable {α : Type} {next : α → List α} {stack visited rest : List (List α)} {above path : List α}
  {x : α}

/-- The paths that are one step longer than a path. -/
def further (next : α → List α) (path : List α) : List (List α) :=
  (path.getLast?.toList.flatMap next).map fun y => path ++ [y]

theorem further_concat (next : α → List α) (above : List α) (x : α) :
    further next (above ++ [x]) = (next x).map fun y => above ++ [x] ++ [y] := by
  rw [further, List.getLast?_concat, Option.toList_some, List.flatMap_singleton]

theorem goesOn_concat (next : α → List α) (above : List α) (x : α) :
    goesOn next (above ++ [x]) = !(next x).isEmpty := by
  rw [goesOn, List.getLast?_concat, Option.any_some]

/-- A pre-order walk takes a node off the stack, and puts what stands directly below it on top of
the rest.  After some steps it has come to some nodes, and something is left on the stack. -/
inductive Walks (next : α → List α) :
    List (List α) → List (List α) → List (List α) → Prop where
  | stop {stack : List (List α)} : Walks next stack [] stack
  | visit {path : List α} {stack visited rest : List (List α)} :
      Walks next (further next path ++ stack) visited rest →
      Walks next (path :: stack) (path :: visited) rest

namespace Walks

/-- A walk goes on from what another one has left. -/
theorem trans {visited' rest' : List (List α)} (h : Walks next stack visited rest)
    (h' : Walks next rest visited' rest') : Walks next stack (visited ++ visited') rest' := by
  induction h with
  | stop => exact h'
  | visit _ ih => exact .visit (ih h')

/-- What lies further down on the stack plays no part in a walk. -/
theorem append (h : Walks next stack visited rest) (lower : List (List α)) :
    Walks next (stack ++ lower) visited (rest ++ lower) := by
  induction h with
  | stop => exact .stop
  | visit _ ih =>
    rw [List.append_assoc] at ih
    exact .visit ih

/-- A walk through the first node of a stack is followed by one through the others. -/
theorem cons {visited' rest' : List (List α)} (h : Walks next [path] visited [])
    (h' : Walks next stack visited' rest') :
    Walks next (path :: stack) (visited ++ visited') rest' :=
  (h.append stack).trans h'

/-- Only one walk leaves nothing on the stack. -/
theorem unique {visited' : List (List α)} (h : Walks next stack visited [])
    (h' : Walks next stack visited' []) : visited' = visited := by
  generalize hrest : ([] : List (List α)) = rest at h
  induction h generalizing visited' with
  | stop =>
    subst hrest
    cases h'
    rfl
  | visit _ ih =>
    cases h' with
    | visit hrest' => rw [ih hrest' hrest]

end Walks

/-- A walk through a row of unfoldings comes to the nodes of each in turn. -/
theorem walks_row (above : List α) {ts : List (Rose α)}
    (hone : ∀ t ∈ ts, ∃ visited, Walks next [above ++ [t.value]] visited [] ∧
      visited.filterMap List.getLast? = t.preorder) :
    ∃ visited, Walks next (ts.map fun t => above ++ [t.value]) visited [] ∧
      visited.filterMap List.getLast? = ts.flatMap preorder := by
  induction ts with
  | nil => exact ⟨[], .stop, rfl⟩
  | cons t ts ih =>
    rw [List.forall_mem_cons] at hone
    obtain ⟨first, hfirst, hvalues⟩ := hone.1
    obtain ⟨others, hothers, hvalues'⟩ := ih hone.2
    refine ⟨first ++ others, hfirst.cons hothers, ?_⟩
    rw [List.filterMap_append, hvalues, hvalues', List.flatMap_cons]

/-- **A walk through a finite unfolding comes to its nodes in pre-order**, and to nothing else. -/
theorem Unfolds.walks {t : Rose α} (ht : t.Unfolds next) (above : List α) :
    ∃ visited, Walks next [above ++ [t.value]] visited [] ∧
      visited.filterMap List.getLast? = t.preorder := by
  induction t generalizing above with
  | node value children ih =>
    obtain ⟨hvalues, hbelow⟩ := unfolds_node.1 ht
    obtain ⟨visited, hwalks, hpreorder⟩ := walks_row (above ++ [value])
      fun s hs => ih s hs (hbelow s hs) (above ++ [value])
    refine ⟨(above ++ [value]) :: visited, .visit ?_, ?_⟩
    · rw [further_concat]
      show Walks next ((next value).map (fun y => above ++ [value] ++ [y]) ++ []) visited []
      rw [← hvalues, List.map_map, List.append_nil]
      exact hwalks
    · rw [List.filterMap_cons_some List.getLast?_concat, hpreorder, preorder_node]

end Rose

/-! ## The trace of a decomposition -/

namespace Decomposition

variable {p : Decomposition} {a b : Arena Node} {h : Handle} {x : Node} {above path : List Node}
  {limit : Nat} {stack visited : List (List Node)} {result : Traced (Arena Node)}

/-- The symbol whose members are looked up for a node: the first one that its type stands for. -/
def symbol? (p : Decomposition) (x : Node) : Option String := (x.symbols p.ctx).head?

/-- What is looked up for the nodes of a walk, one symbol for each node that has any. -/
def lookupsOn (p : Decomposition) (visited : List (List Node)) : List String :=
  (visited.filterMap List.getLast?).filterMap p.symbol?

theorem lookupsOn_append (p : Decomposition) (visited visited' : List (List Node)) :
    p.lookupsOn (visited ++ visited') = p.lookupsOn visited ++ p.lookupsOn visited' := by
  rw [lookupsOn, List.filterMap_append, List.filterMap_append]
  rfl

theorem lookupsOn_cons (p : Decomposition) (above : List Node) (x : Node)
    (visited : List (List Node)) :
    p.lookupsOn ((above ++ [x]) :: visited) = (p.symbol? x).toList ++ p.lookupsOn visited := by
  rw [lookupsOn, List.filterMap_cons_some List.getLast?_concat, List.filterMap_cons]
  cases p.symbol? x <;> rfl

/-- A node is no obstacle to growing a tree: it stands above the last level, or has nothing below
it. -/
def Fits (p : Decomposition) (limit : Nat) (path : List Node) : Prop :=
  Rose.goesOn p.offspring path = true → path.length ≤ limit

/-- What a decomposition has looked up at its end is what a walk comes to.  Either the walk goes
through and all its nodes fit, or it stops at the first node that does not, and the failure names
the path to this node. -/
inductive Looks (p : Decomposition) (limit : Nat) (stack : List (List Node)) :
    Traced (Arena Node) → Prop where
  | through {visited : List (List Node)} {a : Arena Node} :
      Rose.Walks p.offspring stack visited [] → (∀ path ∈ visited, p.Fits limit path) →
      Looks p limit stack ⟨p.lookupsOn visited, .ok a⟩
  | stopped {before rest : List (List Node)} {path : List Node} :
      Rose.Walks p.offspring stack (before ++ [path]) rest →
      (∀ earlier ∈ before, p.Fits limit earlier) → path.length = limit + 1 →
      Rose.goesOn p.offspring path = true →
      Looks p limit stack ⟨p.lookupsOn (before ++ [path]), .error (p.tooDeep (namesText path))⟩

namespace Looks

theorem nil (p : Decomposition) (limit : Nat) (a : Arena Node) : Looks p limit [] (.ok a) :=
  .through .stop (List.forall_mem_nil _)

/-- The first node of a stack is gone through before the others, and a failure below it is the end
of the walk. -/
theorem cons {f : Arena Node → Traced (Arena Node)} (hfirst : Looks p limit [path] result)
    (hothers : ∀ b, result.outcome = .ok b → Looks p limit stack (f b)) :
    Looks p limit (path :: stack) (result.andThen f) := by
  cases hfirst with
  | @through visited b hwalks hfits =>
    have hrest := hothers b rfl
    show Looks p limit (path :: stack) ⟨p.lookupsOn visited ++ (f b).lookups, (f b).outcome⟩
    generalize f b = later at hrest
    cases hrest with
    | @through visited' c hwalks' hfits' =>
      rw [← lookupsOn_append]
      refine .through (hwalks.cons hwalks') ?_
      exact List.forall_mem_append.2 ⟨hfits, hfits'⟩
    | @stopped before rest last hwalks' hfits' hlength hon =>
      have hboth := hwalks.cons hwalks'
      rw [← List.append_assoc] at hboth
      rw [← lookupsOn_append, ← List.append_assoc]
      exact .stopped hboth (List.forall_mem_append.2 ⟨hfits, hfits'⟩) hlength hon
  | stopped hwalks hfits hlength hon => exact .stopped (hwalks.append stack) hfits hlength hon

/-- A walk may stop at its first node. -/
theorem here (hlength : (above ++ [x]).length = limit + 1)
    (hon : Rose.goesOn p.offspring (above ++ [x]) = true) :
    Looks p limit [above ++ [x]]
      ⟨(p.symbol? x).toList, .error (p.tooDeep (namesText (above ++ [x])))⟩ := by
  have hwalks : Rose.Walks p.offspring [above ++ [x]] ([] ++ [above ++ [x]])
      (Rose.further p.offspring (above ++ [x]) ++ []) := .visit .stop
  have hstop := Looks.stopped hwalks (List.forall_mem_nil _) hlength hon
  rw [List.nil_append, lookupsOn_cons] at hstop
  rwa [← List.append_nil (p.symbol? x).toList]

/-- A node is looked at before those below it. -/
theorem node (hfits : p.Fits limit (above ++ [x]))
    (hbelow : Looks p limit (Rose.further p.offspring (above ++ [x])) result) :
    Looks p limit [above ++ [x]] ⟨(p.symbol? x).toList ++ result.lookups, result.outcome⟩ := by
  cases hbelow with
  | @through visited b hwalks hfits' =>
    rw [← lookupsOn_cons p above]
    refine .through (.visit ?_) (List.forall_mem_cons.2 ⟨hfits, hfits'⟩)
    rwa [List.append_nil]
  | @stopped before rest last hwalks hfits' hlength hon =>
    rw [← List.append_nil (Rose.further p.offspring (above ++ [x]))] at hwalks
    rw [← lookupsOn_cons p above, ← List.cons_append]
    exact .stopped (.visit hwalks) (List.forall_mem_cons.2 ⟨hfits, hfits'⟩) hlength hon

end Looks

/-- Growing below a node changes nothing of the nodes that were there, but adds children. -/
theorem extends_of_grow (levels : Nat) (hx : a.value? h = some x) (htrail : a.trail h = above ++ [x])
    (hgrow : (p.grow levels h a).outcome = .ok b) : Arena.Extends a b := by
  rw [grow_outcome levels hx htrail] at hgrow
  cases hunfold : (Rose.unfold p.offspring levels x).map Rose.children with
  | error path =>
    rw [hunfold] at hgrow
    cases hgrow
  | ok trees =>
    rw [hunfold] at hgrow
    rw [← Except.ok.inj hgrow]
    exact (Arena.addTrees_added trees (Arena.contains_of_value? hx)).extends

/-- What goes on below each field of a row is looked up in the order of the row. -/
theorem addFields_looks {levels : Nat}
    (hgrow : ∀ {a : Arena Node} {h : Handle} {x : Node} {above : List Node},
      a.value? h = some x → a.trail h = above ++ [x] → above.length + levels = limit →
        Looks p limit [above ++ [x]] (p.grow levels h a))
    (symbol : String) (hc : a.contains h = true) (htrail : a.trail h = above)
    (hlimit : above.length + levels = limit) (ds : List Declaration) :
    Looks p limit ((ds.map (p.child x symbol)).map fun y => above ++ [y])
      (p.addFields (some (p.grow levels)) h x symbol a ds) := by
  induction ds generalizing a with
  | nil => exact .nil p limit a
  | cons d ds ih =>
    obtain ⟨b, hadd⟩ := Arena.exists_addChild hc (p.child x symbol d)
    have hvalue := Arena.value?_addChild hadd
    have hext := Arena.extends_addChild hadd
    have htrail' : b.trail a.next = above ++ [p.child x symbol d] := by
      rw [Arena.trail_addChild hadd, htrail]
    rw [addFields_cons hadd]
    apply Looks.cons (hgrow hvalue htrail' hlimit)
    intro c hc'
    -- The parent is the same when the other fields are looked at.
    have hext' := extends_of_grow levels hvalue htrail' hc'
    apply ih (hext'.contains (hext.contains hc))
    rw [hext'.trail (hext.contains hc), hext.trail hc, htrail]

/-- **The trace of growing below a node is that of a walk from there.** -/
theorem grow_looks (levels : Nat) (hx : a.value? h = some x) (htrail : a.trail h = above ++ [x])
    (hlimit : above.length + levels = limit) :
    Looks p limit [above ++ [x]] (p.grow levels h a) := by
  have hlength : (above ++ [x]).length = above.length + 1 := List.length_append
  induction levels generalizing a h x above with
  | zero =>
    obtain ⟨symbol, ds, hds, hgrow⟩ := grow_eq_addFields (p := p) 0 hx
    rw [hgrow]
    cases ds with
    | nil =>
      apply Looks.node
      · intro hon
        rw [Rose.goesOn_concat, hds] at hon
        cases hon
      · rw [Rose.further_concat, hds]
        exact .nil p limit a
    | cons d ds =>
      -- The node has been looked up when its first field turns out to be too deep.
      have hfail : p.addFields (p.deeper 0) h x symbol a (d :: ds)
          = .fail (p.tooDeep (namesText (above ++ [x]))) := by
        rw [← htrail, ← pathText_eq]
        rfl
      have hon : Rose.goesOn p.offspring (above ++ [x]) = true := by
        rw [Rose.goesOn_concat, hds]
        rfl
      rw [hfail]
      show Looks p limit [above ++ [x]] ⟨(p.symbol? x).toList ++ [], _⟩
      rw [List.append_nil]
      exact .here (by omega) hon
  | succ levels ih =>
    obtain ⟨symbol, ds, hds, hgrow⟩ := grow_eq_addFields (p := p) (levels + 1) hx
    rw [hgrow]
    apply Looks.node
    · intro _
      omega
    · rw [Rose.further_concat, hds]
      apply addFields_looks (fun hx htrail hlimit => ih hx htrail hlimit List.length_append) symbol
        (Arena.contains_of_value? hx) htrail
      omega

theorem tree_looks (p : Decomposition) (root : Node) :
    Looks p p.levels [[root]] (p.tree root) := by
  have htrail : (Arena.ofRoot 0 root).trail (Arena.ofRoot 0 root).root = [] ++ [root] :=
    Arena.trail_ofRoot 0 root
  exact grow_looks p.levels rfl htrail (Nat.zero_add _)

/-- What is looked up for a tree that is built. -/
theorem lookups_of_tree_eq_ok {root : Node} (ha : (p.tree root).outcome = .ok a) :
    (p.tree root).lookups = a.values.filterMap p.symbol? := by
  obtain ⟨t, ht, rfl⟩ := tree_eq_ok.1 ha
  obtain ⟨rfl, hunfolds, -⟩ := Rose.unfold_eq_ok.1 ht
  obtain ⟨visited, hwalks, hpreorder⟩ := hunfolds.walks []
  have hlooks := tree_looks p t.value
  generalize p.tree t.value = result at ha hlooks
  cases hlooks with
  | through hwalks' _ =>
    rw [Arena.values_ofTree, ← hpreorder, hwalks.unique hwalks']
    rfl
  | stopped => cases ha

/-! ## The recursion without a limit -/

mutual

/-- A call of the recursion without a limit, for a node of an arena, ends after some look-ups with
an arena. -/
inductive Grows (p : Decomposition) :
    Handle → Arena Node → List String → Arena Node → Prop where
  | unresolved {h : Handle} {a : Arena Node} {x : Node} :
      a.value? h = some x → x.symbols p.ctx = [] → Grows p h a [] a
  | memberless {h : Handle} {a : Arena Node} {x : Node} {symbol : String} {rest : List String} :
      a.value? h = some x → x.symbols p.ctx = symbol :: rest → p.ctx.members symbol = none →
      Grows p h a [symbol] a
  | fields {h : Handle} {a b : Arena Node} {x : Node} {symbol : String} {rest : List String}
      {members : List Member} {lookups : List String} :
      a.value? h = some x → x.symbols p.ctx = symbol :: rest →
      p.ctx.members symbol = some members →
      FieldsGrow p h x symbol a (Member.properties members) lookups b →
      Grows p h a (symbol :: lookups) b

/-- The calls for the fields of a node, one after another, end after some look-ups with an
arena. -/
inductive FieldsGrow (p : Decomposition) : Handle → Node → String → Arena Node →
    List Declaration → List String → Arena Node → Prop where
  | done {h : Handle} {x : Node} {symbol : String} {a : Arena Node} :
      FieldsGrow p h x symbol a [] [] a
  | field {h g : Handle} {x : Node} {symbol : String} {a b c e : Arena Node} {d : Declaration}
      {ds : List Declaration} {first others : List String} :
      a.addChild h (p.child x symbol d) = some (g, b) → Grows p g b first c →
      FieldsGrow p h x symbol c ds others e →
      FieldsGrow p h x symbol a (d :: ds) (first ++ others) e

end

mutual

/-- A call that ends has looked up the symbols of a finite unfolding, in pre-order, and added
it. -/
theorem Grows.unfolds {h : Handle} {a b : Arena Node} {x : Node} {lookups : List String}
    (hgrows : p.Grows h a lookups b) (hx : a.value? h = some x) :
    ∃ t : Rose Node, t.value = x ∧ t.Unfolds p.offspring ∧ b = a.addTrees h t.children ∧
      lookups = t.preorder.filterMap p.symbol? := by
  match hgrows with
  | @Grows.unresolved _ _ _ x' hx' hsymbols =>
    rw [hx, Option.some.injEq] at hx'
    have hnothing := offspring_of_unresolved hsymbols
    have hsymbol : p.symbol? x' = none := by rw [symbol?, hsymbols]; rfl
    refine ⟨.node x' [], hx'.symm, .node hnothing.symm (List.forall_mem_nil _), rfl, ?_⟩
    rw [Rose.preorder_node, List.filterMap_cons_none hsymbol]
    rfl
  | @Grows.memberless _ _ _ x' symbol _ hx' hsymbols hmembers =>
    rw [hx, Option.some.injEq] at hx'
    have hnothing := offspring_of_memberless hsymbols hmembers
    have hsymbol : p.symbol? x' = some symbol := by rw [symbol?, hsymbols]; rfl
    refine ⟨.node x' [], hx'.symm, .node hnothing.symm (List.forall_mem_nil _), rfl, ?_⟩
    rw [Rose.preorder_node, List.filterMap_cons_some hsymbol]
    rfl
  | @Grows.fields _ _ _ _ x' symbol _ members _ hx' hsymbols hmembers hfields =>
    obtain ⟨ts, hvalues, hunfolds, hb, hlookups⟩ := hfields.unfolds (Arena.contains_of_value? hx)
    rw [hx, Option.some.injEq] at hx'
    have hbelow := offspring_of_members hsymbols hmembers
    have hsymbol : p.symbol? x' = some symbol := by rw [symbol?, hsymbols]; rfl
    refine ⟨.node x' ts, hx'.symm, .node (hvalues.trans hbelow.symm) hunfolds, hb, ?_⟩
    rw [Rose.preorder_node, List.filterMap_cons_some hsymbol, hlookups]

/-- Calls for some fields that end have looked up the symbols of a finite unfolding of each of
them, and added it. -/
theorem FieldsGrow.unfolds {h : Handle} {x : Node} {symbol : String} {a b : Arena Node}
    {ds : List Declaration} {lookups : List String}
    (hgrow : p.FieldsGrow h x symbol a ds lookups b) (hc : a.contains h = true) :
    ∃ ts : List (Rose Node), ts.map Rose.value = ds.map (p.child x symbol) ∧
      (∀ t ∈ ts, t.Unfolds p.offspring) ∧ b = a.addTrees h ts ∧
      lookups = (ts.flatMap Rose.preorder).filterMap p.symbol? := by
  match hgrow with
  | .done => exact ⟨[], rfl, List.forall_mem_nil _, rfl, rfl⟩
  | @FieldsGrow.field _ _ _ _ _ _ _ c _ d ds first others hadd hfirst hothers =>
    obtain ⟨t, hvalue, hunfolds, hc', hlookups⟩ := hfirst.unfolds (Arena.value?_addChild hadd)
    have htree : c = a.addTree h t := hc'.trans (Arena.addTrees_children (hvalue ▸ hadd))
    obtain ⟨ts, hvalues, hrests, hb, hlookups'⟩ :=
      hothers.unfolds (by rw [htree]; exact (Arena.addTree_added t hc).contains hc)
    refine ⟨t :: ts, ?_, List.forall_mem_cons.2 ⟨hunfolds, hrests⟩, ?_, ?_⟩
    · rw [List.map_cons, List.map_cons, hvalue, hvalues]
    · rw [hb, htree, Arena.addTrees]
    · rw [hlookups, hlookups', List.flatMap_cons, List.filterMap_append]

end

/-- A call ends as the calls for the fields of its node do, and has looked up its symbol first. -/
theorem exists_grows_of_fieldsGrow (hx : a.value? h = some x) :
    ∃ symbol ds, p.offspring x = ds.map (p.child x symbol) ∧
      ∀ lookups b, p.FieldsGrow h x symbol a ds lookups b →
        p.Grows h a ((p.symbol? x).toList ++ lookups) b := by
  rw [symbol?]
  cases hsymbols : x.symbols p.ctx with
  | nil =>
    refine ⟨"", [], offspring_of_unresolved hsymbols, ?_⟩
    rintro _ _ ⟨⟩
    exact .unresolved hx hsymbols
  | cons symbol rest =>
    cases hmembers : p.ctx.members symbol with
    | none =>
      refine ⟨symbol, [], offspring_of_memberless hsymbols hmembers, ?_⟩
      rintro _ _ ⟨⟩
      exact .memberless hx hsymbols hmembers
    | some members =>
      exact ⟨symbol, Member.properties members, offspring_of_members hsymbols hmembers,
        fun _ _ hfields => .fields hx hsymbols hmembers hfields⟩

/-- Calls for some fields end if each field has a finite unfolding whose call ends. -/
theorem fieldsGrow_of_unfolds {symbol : String} {ts : List (Rose Node)} {ds : List Declaration}
    (hgrows : ∀ t ∈ ts, ∀ (a : Arena Node) (h : Handle), a.value? h = some t.value →
      p.Grows h a (t.preorder.filterMap p.symbol?) (a.addTrees h t.children))
    (hvalues : ts.map Rose.value = ds.map (p.child x symbol)) (hc : a.contains h = true) :
    p.FieldsGrow h x symbol a ds ((ts.flatMap Rose.preorder).filterMap p.symbol?)
      (a.addTrees h ts) := by
  induction ts generalizing a ds with
  | nil =>
    obtain rfl : ds = [] := by simpa using hvalues.symm
    exact .done
  | cons t ts ih =>
    cases ds with
    | nil => cases hvalues
    | cons d ds =>
      rw [List.forall_mem_cons] at hgrows
      rw [List.map_cons, List.map_cons, List.cons.injEq] at hvalues
      obtain ⟨hvalue, hvalues⟩ := hvalues
      obtain ⟨b, hadd⟩ := Arena.exists_addChild hc (p.child x symbol d)
      have hfirst := hgrows.1 b a.next (by rw [hvalue]; exact Arena.value?_addChild hadd)
      rw [Arena.addTrees_children (hvalue ▸ hadd)] at hfirst
      rw [List.flatMap_cons, List.filterMap_append]
      exact .field hadd hfirst
        (ih hgrows.2 hvalues ((Arena.addTree_added _ hc).contains hc))

/-- A call for a node with a finite unfolding ends, and looks up what belongs to it. -/
theorem grows_of_unfolds {t : Rose Node} (ht : t.Unfolds p.offspring) {a : Arena Node} {h : Handle}
    (hx : a.value? h = some t.value) :
    p.Grows h a (t.preorder.filterMap p.symbol?) (a.addTrees h t.children) := by
  induction t generalizing a h with
  | node value children ih =>
    obtain ⟨hvalues, hbelow⟩ := Rose.unfolds_node.1 ht
    obtain ⟨symbol, ds, hds, hgrows⟩ := exists_grows_of_fieldsGrow (p := p) hx
    have hpreorder : (Rose.node value children).preorder.filterMap p.symbol?
        = (p.symbol? value).toList ++ (children.flatMap Rose.preorder).filterMap p.symbol? := by
      rw [Rose.preorder_node, List.filterMap_cons]
      cases p.symbol? value <;> rfl
    rw [hpreorder]
    apply hgrows
    exact fieldsGrow_of_unfolds (fun t ht _ _ hx => ih t ht (hbelow t ht) hx)
      (hvalues.trans hds) (Arena.contains_of_value? hx)

/-- The decomposition of a root without a limit ends after some look-ups with an arena. -/
def RunsWith (p : Decomposition) (root : Node) (lookups : List String) (a : Arena Node) : Prop :=
  p.Grows (Arena.ofRoot 0 root).root (Arena.ofRoot 0 root) lookups a

/-- **The recursion without a limit looks up the symbols of the tree that it ends with**, and it
ends with nothing but a tree. -/
theorem runsWith_iff {root : Node} {lookups : List String} :
    p.RunsWith root lookups a ↔
      p.EndsWith root (.ok a) ∧ lookups = a.values.filterMap p.symbol? := by
  rw [endsWith_iff]
  constructor
  · intro hruns
    obtain ⟨⟨value, children⟩, rfl, hunfolds, ha, hlookups⟩ :=
      Grows.unfolds hruns (x := root) rfl
    obtain rfl : a = .ofTree 0 (.node value children) := ha
    exact ⟨⟨_, rfl, hunfolds, rfl⟩, by rw [Arena.values_ofTree]; exact hlookups⟩
  · rintro ⟨⟨t, rfl, hunfolds, ha⟩, rfl⟩
    obtain rfl : a = .ofTree 0 t := Except.ok.inj ha
    rw [Arena.values_ofTree]
    exact grows_of_unfolds hunfolds rfl

/-! ## Everything that is looked up -/

/-- A node that no handler recognises has nothing to look up. -/
theorem symbol?_child_of_fallen {d : Declaration} (parent : Node) (symbol : String)
    (hr : p.handlers.find? (·.recognizes d) = none) :
    p.symbol? (p.child parent symbol d) = none := by
  rw [child, Handler.node, hr]
  rfl

/-- What is looked up until a limit is exceeded: the symbols of a walk that stops at the first node
of the last level with something below it. -/
theorem lookups_of_tree_exceeded {root : Node} {text : String} {n : Nat}
    (herror : (p.tree root).outcome = .error (.depthExceeded text n)) :
    p.maxDepth = some n ∧ ∃ before rest : List (List Node), ∃ last : List Node,
      Rose.Walks p.offspring [[root]] (before ++ [last]) rest ∧
      (last.length = n + 1 ∧ Rose.goesOn p.offspring last = true) ∧
      (∀ earlier ∈ before,
        ¬ (earlier.length = n + 1 ∧ Rose.goesOn p.offspring earlier = true)) ∧
      text = namesText last ∧ (p.tree root).lookups = p.lookupsOn (before ++ [last]) := by
  have hlooks := tree_looks p root
  generalize p.tree root = result at herror hlooks
  cases hlooks with
  | through => cases herror
  | @stopped before rest last hwalks hfits hlength hon =>
    have hfailure : p.tooDeep (namesText last) = .depthExceeded text n := Except.error.inj herror
    rw [tooDeep] at hfailure
    cases hmax : p.maxDepth with
    | none =>
      rw [hmax] at hfailure
      cases hfailure
    | some limit =>
      rw [hmax] at hfailure
      obtain ⟨rfl, rfl⟩ : namesText last = text ∧ limit = n := by simpa using hfailure
      have hlevels : p.levels = limit := by rw [levels, hmax]; rfl
      rw [hlevels] at hfits hlength
      refine ⟨rfl, before, rest, last, hwalks, ⟨hlength, hon⟩, ?_, rfl, rfl⟩
      rintro earlier hmem ⟨hlength', hon'⟩
      have hle := hfits earlier hmem hon'
      omega

/-- **A decomposition looks up one symbol for each node, in pre-order.**  When a tree is built, at
any limit or by the recursion without one, it has looked up the first symbol of every node whose
type stands for one, as often as such nodes come in the tree, and nothing else; nodes that no
handler recognises have none.  When the limit is exceeded, it has looked up what belongs to the
first nodes that a pre-order walk through the whole unfolding comes to, up to the first node of the
last level that has something below it, which is the node that the failure names. -/
theorem tree_lookups (ctx : Introspection) (handlers : List Handler) (root : Node) :
    let build (maxDepth : Option Nat) := tree ⟨ctx, handlers, maxDepth⟩ root
    let below : Node → List Node := offspring ⟨ctx, handlers, none⟩
    let first (x : Node) : Option String := (x.symbols ctx).head?
    (∀ maxDepth a, (build maxDepth).outcome = .ok a →
      (build maxDepth).lookups = a.values.filterMap first) ∧
    (∀ lookups a, RunsWith ⟨ctx, handlers, none⟩ root lookups a ↔
      EndsWith ⟨ctx, handlers, none⟩ root (.ok a) ∧ lookups = a.values.filterMap first) ∧
    (∀ parent symbol d, handlers.find? (·.recognizes d) = none →
      first (child ⟨ctx, handlers, none⟩ parent symbol d) = none) ∧
    ∀ maxDepth text n, (build maxDepth).outcome = .error (.depthExceeded text n) →
      maxDepth = some n ∧ ∃ before rest : List (List Node), ∃ last : List Node,
        Rose.Walks below [[root]] (before ++ [last]) rest ∧
        (last.length = n + 1 ∧ Rose.goesOn below last = true) ∧
        (∀ earlier ∈ before, ¬ (earlier.length = n + 1 ∧ Rose.goesOn below earlier = true)) ∧
        text = ".".intercalate (last.map Node.name) ∧
        (build maxDepth).lookups
          = ((before ++ [last]).filterMap List.getLast?).filterMap first := by
  intro build below first
  refine ⟨?_, ?_, ?_, ?_⟩
  · intro maxDepth a ha
    exact lookups_of_tree_eq_ok ha
  · intro lookups a
    exact runsWith_iff
  · intro parent symbol d hr
    exact symbol?_child_of_fallen parent symbol hr
  · intro maxDepth text n herror
    exact lookups_of_tree_exceeded herror

/-- The tree of a pair looks up its leaves one by one, and nothing for their names; of a list without
end four symbols are looked up before a limit of three is exceeded. -/
theorem tree_lookups_pair :
    let build (type : String) (n : Nat) :=
      tree ⟨pairAndList, Handler.defaults, some n⟩ (.root type)
    let name : Declaration := ⟨"name", .property, .keyword "string", false⟩
    (∃ a, (build "Pair" 2).outcome = .ok a ∧
      (build "Pair" 2).lookups = a.values.filterMap (fun x => (x.symbols pairAndList).head?) ∧
      (build "Pair" 2).lookups = ["Pair", "Leaf", "Leaf"]) ∧
    (Handler.defaults.find? (·.recognizes name) = none ∧
      ((child ⟨pairAndList, Handler.defaults, none⟩ (.root "Leaf") "Leaf" name).symbols
        pairAndList).head? = none) ∧
    (build "List" 3).outcome.map Arena.size = .error (.depthExceeded "List.next.next.next" 3) ∧
    ∃ before : List (List Node), ∃ last : List Node,
      last.length = 4 ∧ ".".intercalate (last.map Node.name) = "List.next.next.next" ∧
      (build "List" 3).lookups = ["List", "List", "List", "List"] ∧
      ((before ++ [last]).filterMap List.getLast?).filterMap
        (fun x => (x.symbols pairAndList).head?) = (build "List" 3).lookups := by
  intro build name
  obtain ⟨hbuilt, -, hfallen, -⟩ := tree_lookups pairAndList Handler.defaults (.root "Pair")
  obtain ⟨-, -, -, hexceeded⟩ := tree_lookups pairAndList Handler.defaults (.root "List")
  have hsize : (build "Pair" 2).outcome.map Arena.size = .ok 5 := by decide +kernel
  have hpair : (build "Pair" 2).lookups = ["Pair", "Leaf", "Leaf"] := by decide +kernel
  have hfails : (build "List" 3).outcome.map Arena.size
      = .error (.depthExceeded "List.next.next.next" 3) := by decide +kernel
  have hlist : (build "List" 3).lookups = ["List", "List", "List", "List"] := by decide +kernel
  have hname : Handler.defaults.find? (·.recognizes name) = none := rfl
  refine ⟨?_, ⟨hname, hfallen _ _ name hname⟩, hfails, ?_⟩
  · cases hout : (build "Pair" 2).outcome with
    | error failure =>
      rw [hout] at hsize
      cases hsize
    | ok a => exact ⟨a, rfl, hbuilt (some 2) a hout, hpair⟩
  · cases hout : (build "List" 3).outcome with
    | ok a =>
      rw [hout] at hfails
      cases hfails
    | error failure =>
      rw [hout] at hfails
      obtain rfl : failure = .depthExceeded "List.next.next.next" 3 := Except.error.inj hfails
      obtain ⟨-, before, -, last, -, ⟨hlength, -⟩, -, htext, hlookups⟩ :=
        hexceeded (some 3) _ 3 hout
      exact ⟨before, last, hlength, htext.symm, hlist, hlookups.symm⟩

end Decomposition

end FieldTree
