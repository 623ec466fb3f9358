/-
# Which lenses a tree of a schema gives

A tree unrolls the graph of the types of a schema: a type stands in it once for each path that
leads there, a union as its first struct.  `Schema.Reached` is the set of the structs on those
paths, said of the schema and the handlers alone.  The fields of a built tree are the properties
of the reached structs, so its lens module declares a lens for each of them.

* `Handler.node_of_builtin` : what a chain of built-in handlers makes of a declaration;
* `Decomposition.exists_mem_preorder_of_reached`, `Decomposition.reached_of_mem_preorder` : a
  struct is reached exactly if a node of the tree is decomposed into it;
* `Decomposition.covers_ofTree` : the fields of a planted unfolding, and its lenses, are those of
  the structs that it reaches;
* `Decomposition.lens_coverage` : the fields of a built tree and the lenses of its module.
-/
import FieldTree.Lens
import FieldTree.Proofs.Building
import FieldTree.Proofs.Identifiers
import FieldTree.Proofs.Resolution
import Mathlib.Data.Set.Basic

namespace FieldTree

/-! ## Chains of built-in handlers -/

namespace Handler

/-- A handler leads from a declaration to a type: it recognises the declaration, and makes a node
of it, wherever it stands, that decomposes into the type. -/
def Targets (handler : Handler) (d : Declaration) (target : String) : Prop :=
  handler.recognizes d = true ∧
    ∀ (ctx : Introspection) (parent : Node), (handler.create ctx parent d).target = some target

theorem targets_ofTarget {name : String} {kind : NodeKind} {target? : TypeExpr → Option String}
    {d : Declaration} {target : String} :
    (ofTarget name kind target?).Targets d target ↔ target? d.type = some target := by
  constructor
  · rintro ⟨-, htarget⟩
    exact htarget ⟨fun _ => [], fun _ => none, 0⟩ (Node.root "")
  · intro htarget
    refine ⟨?_, fun _ _ => htarget⟩
    show (target? d.type).isSome = true
    rw [htarget]
    rfl

/-- No declaration has two of the built-in shapes, so all handlers that recognise it lead to the
same type. -/
theorem targets_unique {handler other : Handler} (hh : handler ∈ defaults) (ho : other ∈ defaults)
    {d : Declaration} {target target' : String} (ht : handler.Targets d target)
    (ht' : other.Targets d target') : target' = target := by
  simp only [defaults, List.mem_cons, List.not_mem_nil, or_false] at hh ho
  rcases hh with rfl | rfl | rfl <;> rcases ho with rfl | rfl | rfl <;>
    simp only [array, record, object, targets_ofTarget, TypeExpr.arrayTarget?,
      TypeExpr.recordTarget?, TypeExpr.objectTarget?] at ht ht' <;>
    cases hshape : d.type.nonNullable <;>
    simp_all [TypeExpr.referenceName?]

/-- Each built-in handler makes nodes of one kind for the declarations that have a target. -/
theorem exists_eq_ofTarget {handler : Handler} (hh : handler ∈ defaults) :
    ∃ name kind target?, handler = ofTarget name kind target? ∧ kind ≠ .root := by
  simp only [defaults, List.mem_cons, List.not_mem_nil, or_false] at hh
  rcases hh with rfl | rfl | rfl
  · exact ⟨_, _, _, rfl, by decide⟩
  · exact ⟨_, _, _, rfl, by decide⟩
  · exact ⟨_, _, _, rfl, by decide⟩

/-- A chain of built-in handlers asks nothing about types, and puts nothing of the parent into a
node but the owner. -/
theorem node_owned_congr {handlers : List Handler} (hb : ∀ handler ∈ handlers, handler ∈ defaults)
    (ctx ctx' : Introspection) (parent parent' : Node) (d : Declaration) (owner : Option String) :
    { node ctx handlers parent d with owner := owner }
      = { node ctx' handlers parent' d with owner := owner } := by
  rw [node, node]
  cases hfind : handlers.find? (·.recognizes d) with
  | none => rfl
  | some handler =>
    obtain ⟨_, _, _, rfl, -⟩ := exists_eq_ofTarget (hb handler (List.mem_of_find?_eq_some hfind))
    rfl

/-- What a chain of built-in handlers makes of a declaration: a field of its name, decomposed into
the type that one of the handlers leads to, if any does. -/
theorem node_of_builtin {handlers : List Handler} (hb : ∀ handler ∈ handlers, handler ∈ defaults)
    (ctx : Introspection) (parent : Node) (d : Declaration) :
    ∃ kind target?, node ctx handlers parent d = Node.ofDeclaration kind parent d target? ∧
      kind ≠ .root ∧
      ∀ target, target? = some target ↔ ∃ handler ∈ handlers, handler.Targets d target := by
  cases hfind : handlers.find? (·.recognizes d) with
  | none =>
    refine ⟨.terminal, none, by rw [node, hfind]; rfl, by decide, fun target => ?_⟩
    rw [List.find?_eq_none] at hfind
    constructor
    · intro h
      cases h
    · rintro ⟨handler, hmem, hrecognizes, -⟩
      exact absurd hrecognizes (hfind handler hmem)
  | some handler =>
    have hmem : handler ∈ handlers := List.mem_of_find?_eq_some hfind
    obtain ⟨name, kind, make, hhandler, hkind⟩ := exists_eq_ofTarget (hb handler hmem)
    have hrecognizes : (make d.type).isSome = true := by
      have := List.find?_some hfind
      rw [hhandler] at this
      exact this
    obtain ⟨found, hfound⟩ := Option.isSome_iff_exists.1 hrecognizes
    have htargets : handler.Targets d found := by
      rw [hhandler, targets_ofTarget]
      exact hfound
    refine ⟨kind, some found, ?_, hkind, fun target => ?_⟩
    · rw [node, hfind, hhandler, ← hfound]
      rfl
    · rw [Option.some.injEq]
      constructor
      · rintro rfl
        exact ⟨handler, hmem, htargets⟩
      · rintro ⟨other, hother, ht⟩
        exact targets_unique (hb other hother) (hb handler hmem) ht htargets

end Handler

/-! ## The structs that a tree reaches -/

namespace Schema

/-- A struct has a declaration among its members, as a property. -/
def Declares (s : Schema) (owner : String) (d : Declaration) : Prop :=
  ∃ members, s.definition? owner = some (.struct members) ∧ d ∈ Member.properties members

/-- The structs that the tree of a root type reaches: the first struct that the root stands for,
and with a struct the first struct of each type that a handler leads to from one of its
properties. -/
inductive Reached (s : Schema) (handlers : List Handler) (root : String) : String → Prop where
  | root {symbol : String} : (s.symbols root).head? = some symbol → Reached s handlers root symbol
  | field {owner target symbol : String} {d : Declaration} {handler : Handler} :
      Reached s handlers root owner → s.Declares owner d → handler ∈ handlers →
      handler.Targets d target → (s.symbols target).head? = some symbol →
      Reached s handlers root symbol

end Schema

/-! ## The fields of a tree -/

namespace Decomposition

variable {s : Schema} {handlers : List Handler} {maxDepth : Option Nat} {root : String}
  {t : Rose Node} {x y : Node}

/-- The decomposition of the types of a schema. -/
abbrev ofSchema (s : Schema) (handlers : List Handler) (maxDepth : Option Nat) : Decomposition :=
  ⟨s.introspection, handlers, maxDepth⟩

/-- With built-in handlers the node of a field is the same in every schema and below every node. -/
theorem child_congr (hb : ∀ handler ∈ handlers, handler ∈ Handler.defaults) (s s' : Schema)
    (maxDepth maxDepth' : Option Nat) (x y : Node) (owner : String) (d : Declaration) :
    (ofSchema s' handlers maxDepth').child y owner d
      = (ofSchema s handlers maxDepth).child x owner d :=
  Handler.node_owned_congr hb s'.introspection s.introspection y x d (some owner)

/-- With built-in handlers the same stands below nodes that are decomposed into the same struct,
whatever the limit. -/
theorem offspring_of_head?_eq (hb : ∀ handler ∈ handlers, handler ∈ Handler.defaults)
    (maxDepth maxDepth' : Option Nat)
    (hsymbol : (y.symbols s.introspection).head? = (x.symbols s.introspection).head?) :
    (ofSchema s handlers maxDepth').offspring y = (ofSchema s handlers maxDepth).offspring x :=
  offspring_congr hsymbol (fun _ _ => rfl) fun owner d =>
    child_congr hb s s maxDepth maxDepth' x y owner d

/-- Below a node stand the properties of the struct that it is decomposed into. -/
theorem offspring_of_struct {owner : String} {rest : List String} {members : List Member}
    (hx : x.symbols s.introspection = owner :: rest)
    (hd : s.definition? owner = some (.struct members)) :
    (ofSchema s handlers maxDepth).offspring x
      = (Member.properties members).map ((ofSchema s handlers maxDepth).child x owner) := by
  have hmembers : s.introspection.members owner = some members := Schema.members?_eq_some.2 hd
  exact offspring_of_members hx hmembers

/-- Below a node stands nothing if its type stands for no struct. -/
theorem offspring_of_no_struct (hx : x.symbols s.introspection = []) :
    (ofSchema s handlers maxDepth).offspring x = [] :=
  offspring_of_unresolved hx

/-- The symbols of a node are structs. -/
theorem isStruct_of_mem_symbols {symbol : String} (h : symbol ∈ x.symbols s.introspection) :
    s.IsStruct symbol := by
  rw [Node.symbols] at h
  cases ht : x.target with
  | none =>
    rw [ht] at h
    cases h
  | some target =>
    rw [ht] at h
    exact (Schema.mem_symbols_iff.1 h).1

/-- The nodes below a node, one by one. -/
theorem mem_offspring_iff :
    y ∈ (ofSchema s handlers maxDepth).offspring x ↔
      ∃ owner d, (x.symbols s.introspection).head? = some owner ∧ s.Declares owner d ∧
        y = (ofSchema s handlers maxDepth).child x owner d := by
  cases hx : x.symbols s.introspection with
  | nil => simp [offspring_of_no_struct hx]
  | cons symbol rest =>
    obtain ⟨members, hd⟩ := isStruct_of_mem_symbols (hx ▸ List.mem_cons_self)
    rw [offspring_of_struct hx hd, List.mem_map]
    constructor
    · rintro ⟨d, hmem, rfl⟩
      exact ⟨symbol, d, rfl, ⟨members, hd, hmem⟩, rfl⟩
    · rintro ⟨owner, d, howner, ⟨members', hd', hmem⟩, rfl⟩
      obtain rfl : symbol = owner := Option.some.inj howner
      rw [hd, Option.some.injEq, Definition.struct.injEq] at hd'
      exact ⟨d, hd' ▸ hmem, rfl⟩

/-- A field's node is decomposed into the type that a handler leads to. -/
theorem target_child_iff (hb : ∀ handler ∈ handlers, handler ∈ Handler.defaults)
    {owner target : String} {d : Declaration} :
    ((ofSchema s handlers maxDepth).child x owner d).target = some target ↔
      ∃ handler ∈ handlers, handler.Targets d target := by
  obtain ⟨kind, target?, hnode, -, htargets⟩ :=
    Handler.node_of_builtin hb s.introspection x d
  rw [child, hnode]
  exact htargets target

/-- The struct of a field's node is that of a type that a handler leads to. -/
theorem head?_symbols_child (hb : ∀ handler ∈ handlers, handler ∈ Handler.defaults)
    {owner symbol : String} {d : Declaration} :
    (((ofSchema s handlers maxDepth).child x owner d).symbols s.introspection).head?
        = some symbol ↔
      ∃ handler ∈ handlers, ∃ target, handler.Targets d target ∧
        (s.symbols target).head? = some symbol := by
  have htarget : ∀ target, ((ofSchema s handlers maxDepth).child x owner d).target = some target ↔
      ∃ handler ∈ handlers, handler.Targets d target :=
    fun _ => target_child_iff hb
  generalize (ofSchema s handlers maxDepth).child x owner d = y at htarget
  rw [Node.symbols]
  constructor
  · intro h
    cases ht : y.target with
    | none =>
      rw [ht] at h
      cases h
    | some target =>
      rw [ht] at h
      obtain ⟨handler, hmem, hleads⟩ := (htarget target).1 ht
      exact ⟨handler, hmem, target, hleads, h⟩
  · rintro ⟨handler, hmem, target, hleads, h⟩
    rw [(htarget target).2 ⟨handler, hmem, hleads⟩]
    exact h

/-- A node of a tree is decomposed into a struct that the tree reaches. -/
theorem reached_of_mem_preorder (hb : ∀ handler ∈ handlers, handler ∈ Handler.defaults)
    (ht : t.Unfolds (ofSchema s handlers maxDepth).offspring)
    (hroot : t.value = .root root) :
    ∀ x ∈ t.preorder, ∀ owner, (x.symbols s.introspection).head? = some owner →
      s.Reached handlers root owner := by
  refine ht.forall_mem_preorder ?_ ?_
  · rw [hroot]
    intro owner howner
    exact .root howner
  · intro x y hx hy symbol hsymbol
    obtain ⟨owner, d, howner, hd, rfl⟩ := mem_offspring_iff.1 hy
    obtain ⟨handler, hmem, target, hleads, htarget⟩ := (head?_symbols_child hb).1 hsymbol
    exact .field (hx owner howner) hd hmem hleads htarget

/-- A struct that a tree reaches is one that a node of the tree is decomposed into. -/
theorem exists_mem_preorder_of_reached (hb : ∀ handler ∈ handlers, handler ∈ Handler.defaults)
    (ht : t.Unfolds (ofSchema s handlers maxDepth).offspring)
    (hroot : t.value = .root root) {owner : String} (h : s.Reached handlers root owner) :
    ∃ x ∈ t.preorder, (x.symbols s.introspection).head? = some owner := by
  induction h with
  | root hsymbol =>
    refine ⟨t.value, by rw [Rose.preorder_eq_cons]; exact List.mem_cons_self, ?_⟩
    rw [hroot]
    exact hsymbol
  | @field owner target symbol d handler _ hd hmem hleads hsymbol ih =>
    obtain ⟨x, hx, howner⟩ := ih
    have hchild : (ofSchema s handlers maxDepth).child x owner d
        ∈ (ofSchema s handlers maxDepth).offspring x :=
      mem_offspring_iff.2 ⟨owner, d, howner, hd, rfl⟩
    exact ⟨_, List.mem_of_mem_tail (ht.mem_tail_preorder_iff.2 ⟨x, hx, hchild⟩),
      (head?_symbols_child hb).2 ⟨handler, hmem, target, hleads, hsymbol⟩⟩

/-- The node of a field has the struct that declares the field as its owner, and its name. -/
theorem child_fields (hb : ∀ handler ∈ handlers, handler ∈ Handler.defaults) (x : Node)
    (owner : String) (d : Declaration) :
    let y := (ofSchema s handlers maxDepth).child x owner d
    y.owner = some owner ∧ y.name = d.name ∧ y.kind ≠ .root := by
  obtain ⟨kind, target?, hnode, hkind, -⟩ := Handler.node_of_builtin hb s.introspection x d
  rw [child, hnode]
  exact ⟨rfl, rfl, hkind⟩

/-- The fields of a tree are the properties of the structs that it reaches. -/
theorem mem_tail_preorder_fields (hb : ∀ handler ∈ handlers, handler ∈ Handler.defaults)
    (ht : t.Unfolds (ofSchema s handlers maxDepth).offspring)
    (hroot : t.value = .root root) :
    (∀ y ∈ t.preorder.tail, y.kind ≠ .root ∧ ∃ owner d, s.Reached handlers root owner ∧
      s.Declares owner d ∧ y.owner = some owner ∧ y.name = d.name) ∧
    ∀ owner d, s.Reached handlers root owner → s.Declares owner d →
      ∃ y ∈ t.preorder.tail, y.owner = some owner ∧ y.name = d.name := by
  constructor
  · intro y hy
    obtain ⟨x, hx, hxy⟩ := ht.mem_tail_preorder_iff.1 hy
    obtain ⟨owner, d, howner, hd, rfl⟩ := mem_offspring_iff.1 hxy
    obtain ⟨hfield, hname, hkind⟩ := child_fields hb x owner d
    have hreached := reached_of_mem_preorder hb ht hroot x hx owner howner
    exact ⟨hkind, owner, d, hreached, hd, hfield, hname⟩
  · intro owner d hreached hd
    obtain ⟨x, hx, howner⟩ := exists_mem_preorder_of_reached hb ht hroot hreached
    obtain ⟨hfield, hname, -⟩ := child_fields hb x owner d
    have hchild : (ofSchema s handlers maxDepth).child x owner d
        ∈ (ofSchema s handlers maxDepth).offspring x :=
      mem_offspring_iff.2 ⟨owner, d, howner, hd, rfl⟩
    exact ⟨_, ht.mem_tail_preorder_iff.2 ⟨x, hx, hchild⟩, hfield, hname⟩

/-! ## The lenses of a tree -/

open Lens (Candidate) in
/-- Whether the fields of an arena, and the lenses of its module, are those of the structs that the
tree of a root reaches. -/
structure Covers (s : Schema) (handlers : List Handler) (root key : String) (a : Arena Node) :
    Prop where
  fields_eq : {field : Option String × String | ∃ h x, h ≠ a.root ∧ a.value? h = some x ∧
      field = (x.owner, x.name)}
    = {field | ∃ owner d, s.Reached handlers root owner ∧ s.Declares owner d ∧
      field = (some owner, d.name)}
  lenses_eq : a.lenses key = (Lens.kept key a.values).map Candidate.line
  declares : ∀ c ∈ Lens.kept key a.values, c.Declares
  count_eq_one : ∀ owner d, s.Reached handlers root owner → s.Declares owner d →
    ((Lens.kept key a.values).map Candidate.identifier).count (Lens.identifier owner d.name) = 1
  origin : ∀ c ∈ Lens.kept key a.values, ∃ h x, h ≠ a.root ∧ a.value? h = some x ∧
    ∃ owner d, s.Reached handlers root owner ∧ s.Declares owner d ∧
      x.owner = some owner ∧ x.name = d.name ∧
      (c = ⟨Lens.identifier owner d.name, Lens.field owner d.name⟩ ∨
        (x.kind = .array ∧ ∃ element, x.target = some element ∧
          c = ⟨Lens.traversalIdentifier element, Lens.traversal element⟩) ∨
        (x.kind = .record ∧ ∃ value, x.target = some value ∧
          c = ⟨Lens.identifier value d.name, Lens.record value d.name key⟩))

/-- The arena that a finite unfolding is planted in covers the structs that it reaches. -/
theorem covers_ofTree (hb : ∀ handler ∈ handlers, handler ∈ Handler.defaults)
    (ht : t.Unfolds (ofSchema s handlers maxDepth).offspring) (hroot : t.value = .root root)
    (key : String) : Covers s handlers root key (.ofTree 0 t) := by
  obtain ⟨hfields, hproperties⟩ := mem_tail_preorder_fields hb ht hroot
  have hvalues : (Arena.ofTree 0 t).values = t.value :: t.preorder.tail := by
    rw [Arena.values_ofTree, ← Rose.preorder_eq_cons]
  refine ⟨?_, Lens.declarations_eq key _, fun c hc => Lens.declares_of_mem_kept hc, ?_, ?_⟩
  · ext ⟨owner?, name⟩
    simp only [Set.mem_ofPred_eq, Prod.mk.injEq]
    constructor
    · rintro ⟨h, x, hne, hx, rfl, rfl⟩
      obtain ⟨-, owner, d, hreached, hd, howner, hname⟩ :=
        hfields x ((Arena.exists_value?_ofTree_iff 0 t).1 ⟨h, hne, hx⟩)
      exact ⟨owner, d, hreached, hd, howner, hname⟩
    · rintro ⟨owner, d, hreached, hd, rfl, rfl⟩
      obtain ⟨x, hx, howner, hname⟩ := hproperties owner d hreached hd
      obtain ⟨h, hne, hvalue⟩ := (Arena.exists_value?_ofTree_iff 0 t).2 hx
      exact ⟨h, x, hne, hvalue, howner.symm, hname.symm⟩
  · intro owner d hreached hd
    obtain ⟨x, hx, howner, hname⟩ := hproperties owner d hreached hd
    have hown : Lens.own x ∈ Lens.candidates key x :=
      Lens.mem_candidates_iff.2 ⟨(hfields x hx).1, Or.inl rfl⟩
    have hmem : x ∈ (Arena.ofTree 0 t).values := by
      rw [hvalues]
      exact List.mem_cons_of_mem _ hx
    have hcount := Lens.count_identifiers_kept hmem hown
    rwa [Lens.own, Node.ownerOrName, howner, hname] at hcount
  · intro c hc
    obtain ⟨x, hx, hcandidate⟩ := Lens.exists_of_mem_kept hc
    obtain ⟨hkind, hcases⟩ := Lens.mem_candidates_iff.1 hcandidate
    have htail : x ∈ t.preorder.tail := by
      rw [hvalues, List.mem_cons] at hx
      refine hx.resolve_left ?_
      rintro rfl
      exact hkind (by rw [hroot]; rfl)
    obtain ⟨h, hne, hvalue⟩ := (Arena.exists_value?_ofTree_iff 0 t).2 htail
    obtain ⟨-, owner, d, hreached, hd, howner, hname⟩ := hfields x htail
    refine ⟨h, x, hne, hvalue, owner, d, hreached, hd, howner, hname, ?_⟩
    rwa [Lens.own, Node.ownerOrName, howner, hname] at hcases

open Lens (Candidate) in
/-- **The lenses of a tree cover the structs that it reaches.**  The fields of a tree, each with
its owner, are the properties of the reached structs.  The module of the tree declares the
identifier of each of them once, and whatever it declares comes from a field of the tree: it is
the lens on a property of a struct that declares this property, or the traversal of an array, or
the lens into the values of a record. -/
theorem lens_coverage (s : Schema) (root : String) (handlers : List Handler)
    (hb : ∀ handler ∈ handlers, handler ∈ Handler.defaults) (maxDepth : Option Nat)
    (a : Arena Node)
    (ha : ((ofSchema s handlers maxDepth).tree (.root root)).outcome = .ok a)
    (key : String) :
    {field : Option String × String | ∃ h x, h ≠ a.root ∧ a.value? h = some x ∧
        field = (x.owner, x.name)}
      = {field | ∃ owner d, s.Reached handlers root owner ∧ s.Declares owner d ∧
        field = (some owner, d.name)} ∧
    a.lenses key = (Lens.kept key a.values).map Candidate.line ∧
    (∀ c ∈ Lens.kept key a.values, c.Declares) ∧
    (∀ owner d, s.Reached handlers root owner → s.Declares owner d →
      ((Lens.kept key a.values).map Candidate.identifier).count (Lens.identifier owner d.name)
        = 1) ∧
    ∀ c ∈ Lens.kept key a.values, ∃ h x, h ≠ a.root ∧ a.value? h = some x ∧
      ∃ owner d, s.Reached handlers root owner ∧ s.Declares owner d ∧
        x.owner = some owner ∧ x.name = d.name ∧
        (c = ⟨Lens.identifier owner d.name, Lens.field owner d.name⟩ ∨
          (x.kind = .array ∧ ∃ element, x.target = some element ∧
            c = ⟨Lens.traversalIdentifier element, Lens.traversal element⟩) ∨
          (x.kind = .record ∧ ∃ value, x.target = some value ∧
            c = ⟨Lens.identifier value d.name, Lens.record value d.name key⟩)) := by
  obtain ⟨t, hunfold, rfl⟩ := tree_eq_ok.1 ha
  obtain ⟨hroot, ht, -⟩ := Rose.unfold_eq_ok.1 hunfold
  have hcovers := covers_ofTree hb ht hroot key
  exact ⟨hcovers.fields_eq, hcovers.lenses_eq, hcovers.declares, hcovers.count_eq_one,
    hcovers.origin⟩

/-- A property of a drawing: its shapes. -/
def shapes : Declaration := ⟨"shapes", .property, .array (.reference "Shape"), false⟩

/-- A property of a circle: its radius. -/
def radius : Declaration := ⟨"radius", .property, .keyword "number", false⟩

/-- A drawing has shapes, each a circle or a square, of which only circles are defined. -/
def drawing : Schema :=
  ((Schema.empty.withStruct "Circle" [.declared radius]).withUnion "Shape"
    ["Circle", "Square"]).withStruct "Drawing"
      [.declared shapes, .declared ⟨"redraw", .method, .reference "Drawing", false⟩]

theorem definition?_drawing :
    drawing.definition? "Circle" = some (.struct [.declared radius]) ∧
    drawing.definition? "Shape" = some (.union ["Circle", "Square"]) ∧
    drawing.definition? "Square" = none ∧
    drawing.definition? "Drawing" = some (.struct [.declared shapes,
      .declared ⟨"redraw", .method, .reference "Drawing", false⟩]) := by
  decide +kernel

/-- A shape stands for a circle, since squares are not defined. -/
theorem symbols_drawing :
    drawing.symbols "Drawing" = ["Drawing"] ∧ drawing.symbols "Shape" = ["Circle"] := by
  obtain ⟨hcircle, hshape, hsquare, hdrawing⟩ := definition?_drawing
  refine ⟨Schema.IsStruct.symbols_eq ⟨_, hdrawing⟩, ?_⟩
  rw [Schema.symbols, Schema.reach_of_union List.not_mem_nil hshape, List.append_nil,
    Schema.reach_of_struct (by decide) hcircle, Schema.reach_of_undefined hsquare,
    Schema.reach_nil]

/-- The node of the shapes of a drawing. -/
def shapesNode : Node := ⟨.array, "shapes", some "Drawing", some shapes, some "Shape"⟩

/-- The node of the radius of a circle. -/
def radiusNode : Node := ⟨.terminal, "radius", some "Circle", some radius, none⟩

/-- The tree of a drawing is a chain of three nodes: the root, its shapes and their radius. -/
theorem tree_drawing :
    ((ofSchema drawing Handler.defaults (some 2)).tree (.root "Drawing")).outcome
      = .ok (.ofTree 0 (.node (.root "Drawing") [.node shapesNode [.node radiusNode []]])) := by
  obtain ⟨hcircle, -, -, hdrawing⟩ := definition?_drawing
  obtain ⟨hroot, hshape⟩ := symbols_drawing
  have hunfold : Rose.unfold (ofSchema drawing Handler.defaults (some 2)).offspring 2
      (.root "Drawing")
      = .ok (.node (.root "Drawing") [.node shapesNode [.node radiusNode []]]) := by
    refine Rose.unfold_eq_ok.2 ⟨rfl, ?_, by decide⟩
    refine .node ?_ (List.forall_mem_singleton.2 (.node ?_ (List.forall_mem_singleton.2
      (.node ?_ (List.forall_mem_nil _)))))
    · rw [offspring_of_struct (x := .root "Drawing") hroot hdrawing]
      rfl
    · rw [offspring_of_struct (x := shapesNode) hshape hcircle]
      rfl
    · rw [offspring_of_no_struct rfl]
      rfl
  exact tree_eq_ok.2 ⟨_, hunfold, rfl⟩

theorem exists_tree_drawing :
    ∃ a, ((ofSchema drawing Handler.defaults (some 2)).tree (.root "Drawing")).outcome = .ok a :=
  ⟨_, tree_drawing⟩

/-- The tree of a drawing reaches circles through its shapes, so its module has a lens on the
radius of a circle. -/
theorem lens_coverage_drawing :
    (∀ handler ∈ Handler.defaults, handler ∈ Handler.defaults) ∧
    ∃ a, ((ofSchema drawing Handler.defaults (some 2)).tree (.root "Drawing")).outcome = .ok a ∧
      drawing.Reached Handler.defaults "Drawing" "Circle" ∧
      ((Lens.kept "id" a.values).map Lens.Candidate.identifier).count "getRadiusFromCircle" = 1 ∧
      ∃ h x, h ≠ a.root ∧ a.value? h = some x ∧ x.owner = some "Circle" ∧ x.name = "radius" := by
  obtain ⟨hcircle, -, -, hdrawing⟩ := definition?_drawing
  obtain ⟨hroot, hshape⟩ := symbols_drawing
  obtain ⟨a, ha⟩ := exists_tree_drawing
  have hshapes : drawing.Declares "Drawing" shapes := ⟨_, hdrawing, List.mem_cons_self⟩
  have hradius : drawing.Declares "Circle" radius := ⟨_, hcircle, List.mem_cons_self⟩
  have hreached : drawing.Reached Handler.defaults "Drawing" "Circle" :=
    .field (.root (by rw [hroot]; rfl)) hshapes List.mem_cons_self
      (Handler.targets_ofTarget.2 rfl) (by rw [hshape]; rfl)
  obtain ⟨hfields, -, -, hcount, -⟩ := lens_coverage drawing "Drawing" Handler.defaults
    (fun _ h => h) (some 2) a ha "id"
  have hmem : (some "Circle", "radius") ∈ {field : Option String × String | ∃ owner d,
      drawing.Reached Handler.defaults "Drawing" owner ∧ drawing.Declares owner d ∧
        field = (some owner, d.name)} := ⟨"Circle", radius, hreached, hradius, rfl⟩
  rw [← hfields] at hmem
  obtain ⟨h, x, hne, hx, heq⟩ := hmem
  rw [Prod.mk.injEq] at heq
  exact ⟨fun _ h => h, a, ha, hreached, hcount "Circle" radius hreached hradius, h, x, hne, hx,
    heq.1.symm, heq.2.symm⟩

end Decomposition

end FieldTree
