/-
# The order of the built-in handlers

The three built-in shapes exclude each other: without its missing values a type is a reference, an
array or a map, and never two of these.  So at most one of the handlers recognises a declaration,
and the first in a chain that does is the only one.  A chain of built-in handlers is determined by
the set of its members, and so is every tree that it makes.

* `Handler.eq_of_recognizes` : no declaration is recognised by two of the handlers;
* `Handler.find?_eq_of_mem_iff` : chains with the same members find the same handler;
* `Handler.node_shape` : which nodes of a chain have a target;
* `Decomposition.tree_of_same_handlers` : neither the order nor the writing of the names matters.
-/
import FieldTree.Proofs.Dependence
import FieldTree.Proofs.Endless

namespace FieldTree

namespace Handler

variable {handler other : Handler} {handlers handlers' : List Handler}

/-! ## The three shapes -/

/-- The built-in handler of the shape that a type has without its missing values. -/
def ofShape? : TypeExpr → Option Handler
  | .array _ => some array
  | .map .. => some record
  | .reference _ => some object
  | .keyword _ | .union _ => none

/-- What a built-in handler recognises has its shape. -/
theorem ofShape?_of_recognizes (hh : handler ∈ defaults) {d : Declaration}
    (hr : handler.recognizes d = true) : ofShape? d.type.nonNullable = some handler := by
  simp only [defaults, List.mem_cons, List.not_mem_nil, or_false] at hh
  rcases hh with rfl | rfl | rfl
  · rw [array_recognizes, TypeExpr.arrayTarget?] at hr
    cases hshape : d.type.nonNullable <;> simp [hshape, ofShape?] at hr ⊢
  · rw [record_recognizes, TypeExpr.recordTarget?] at hr
    cases hshape : d.type.nonNullable <;> simp [hshape, ofShape?] at hr ⊢
  · rw [object_recognizes, TypeExpr.objectTarget?] at hr
    cases hshape : d.type.nonNullable <;> simp [hshape, ofShape?, TypeExpr.referenceName?] at hr ⊢

/-- **No declaration is recognised by two built-in handlers.** -/
theorem eq_of_recognizes (hh : handler ∈ defaults) (ho : other ∈ defaults) {d : Declaration}
    (hr : handler.recognizes d = true) (hr' : other.recognizes d = true) : other = handler := by
  have hshape := ofShape?_of_recognizes hh hr
  have hshape' := ofShape?_of_recognizes ho hr'
  exact Option.some.inj (hshape'.symm.trans hshape)

/-- A built-in handler that recognises a declaration makes a node with a target of it. -/
theorem exists_target_of_recognizes (hh : handler ∈ defaults) {d : Declaration}
    (hr : handler.recognizes d = true) (ctx : Introspection) (parent : Node) :
    ∃ target, (handler.create ctx parent d).target = some target := by
  obtain ⟨name, kind, target?, rfl, -⟩ := exists_eq_ofTarget hh
  exact Option.isSome_iff_exists.1 hr

/-! ## Chains with the same members -/

/-- The handler that is found recognises the declaration. -/
theorem recognizes_of_find? {d : Declaration}
    (hfind : handlers.find? (·.recognizes d) = some handler) : handler.recognizes d = true :=
  (List.find?_eq_some_iff_append.1 hfind).1

/-- Chains of built-in handlers with the same members find the same handler for a declaration. -/
theorem find?_eq_of_mem_iff (hb : ∀ handler ∈ handlers, handler ∈ defaults)
    (hsame : ∀ handler, handler ∈ handlers ↔ handler ∈ handlers') (d : Declaration) :
    handlers'.find? (·.recognizes d) = handlers.find? (·.recognizes d) := by
  cases hfind : handlers.find? (·.recognizes d) with
  | none =>
    rw [List.find?_eq_none] at hfind ⊢
    intro handler hmem
    exact hfind handler ((hsame handler).2 hmem)
  | some handler =>
    have hmem := List.mem_of_find?_eq_some hfind
    have hr := recognizes_of_find? hfind
    have hsome : (handlers'.find? (·.recognizes d)).isSome = true :=
      List.find?_isSome.2 ⟨handler, (hsame handler).1 hmem, hr⟩
    obtain ⟨other, hother⟩ := Option.isSome_iff_exists.1 hsome
    -- Both recognise the declaration, so they are one.
    have hmem' := (hsame other).2 (List.mem_of_find?_eq_some hother)
    have hr' := recognizes_of_find? hother
    rw [hother, eq_of_recognizes (hb handler hmem) (hb other hmem') hr hr']

/-- A chain of built-in handlers makes a terminal node without a target, or a node of one of the
three shapes with one. -/
theorem node_shape (hb : ∀ handler ∈ handlers, handler ∈ defaults) (ctx : Introspection)
    (parent : Node) (d : Declaration) :
    (node ctx handlers parent d).kind = .terminal ∧ (node ctx handlers parent d).target = none ∨
    (node ctx handlers parent d).kind ∈ [NodeKind.object, .array, .record] ∧
      (node ctx handlers parent d).target.isSome = true := by
  rw [node]
  cases hfind : handlers.find? (·.recognizes d) with
  | none => exact Or.inl ⟨rfl, rfl⟩
  | some handler =>
    have hh := hb handler (List.mem_of_find?_eq_some hfind)
    have hr := recognizes_of_find? hfind
    right
    refine ⟨?_, Option.isSome_iff_exists.2 (exists_target_of_recognizes hh hr ctx parent)⟩
    simp only [defaults, List.mem_cons, List.not_mem_nil, or_false] at hh
    rcases hh with rfl | rfl | rfl <;> simp [array, record, object, ofTarget, Node.ofDeclaration]

end Handler

namespace Decomposition

variable {ctx : Introspection} {handlers handlers' : List Handler} {maxDepth : Option Nat}

/-! ## Trees of the same handlers -/

/-- With the same members in two chains the same belongs below every node. -/
theorem offspring_of_mem_iff (hb : ∀ handler ∈ handlers, handler ∈ Handler.defaults)
    (hsame : ∀ handler, handler ∈ handlers ↔ handler ∈ handlers') :
    offspring ⟨ctx, handlers', maxDepth⟩ = offspring ⟨ctx, handlers, maxDepth⟩ := by
  funext x
  refine offspring_congr (p := ⟨ctx, handlers, maxDepth⟩) rfl (fun _ _ => rfl) ?_
  intro symbol d
  rw [child, child, Handler.node, Handler.node, Handler.find?_eq_of_mem_iff hb hsame]

/-- Below the root of an unfolding with built-in handlers the nodes with a target are those of the
three shapes. -/
theorem shape_of_unfolds (hb : ∀ handler ∈ handlers, handler ∈ Handler.defaults) {t : Rose Node}
    (ht : t.Unfolds (offspring ⟨ctx, handlers, maxDepth⟩)) {h : Handle} {x : Node}
    (hne : h ≠ (Arena.ofTree 0 t).root) (hx : (Arena.ofTree 0 t).value? h = some x) :
    x.kind = .terminal ∧ x.target = none ∨
    x.kind ∈ [NodeKind.object, .array, .record] ∧ x.target.isSome = true := by
  have hmem := (Arena.exists_value?_ofTree_iff 0 t).1 ⟨h, hne, hx⟩
  obtain ⟨y, -, hy⟩ := ht.mem_tail_preorder_iff.1 hmem
  rw [offspring_eq] at hy
  split at hy
  · cases hy
  · split at hy
    · cases hy
    · obtain ⟨d, -, rfl⟩ := List.mem_map.1 hy
      exact Handler.node_shape hb ctx y d

/-- A tree that is built, within a limit or by the recursion without one, is a planted
unfolding. -/
theorem exists_unfolds_of_built {root : Node} {a : Arena Node}
    (ha : (∃ maxDepth, (tree ⟨ctx, handlers, maxDepth⟩ root).outcome = .ok a) ∨
      EndsWith ⟨ctx, handlers, none⟩ root (.ok a)) :
    ∃ t : Rose Node, t.value = root ∧ t.Unfolds (offspring ⟨ctx, handlers, none⟩) ∧
      a = .ofTree 0 t := by
  rcases ha with ⟨maxDepth, hbuilt⟩ | hends
  · obtain ⟨t, ht, rfl⟩ := tree_eq_ok.1 hbuilt
    obtain ⟨hvalue, hunfolds, -⟩ := Rose.unfold_eq_ok.1 ht
    exact ⟨t, hvalue, hunfolds, rfl⟩
  · obtain ⟨t, hvalue, hunfolds, heq⟩ := endsWith_iff.1 hends
    exact ⟨t, hvalue, hunfolds, Except.ok.inj heq⟩

/-- **Neither the order of the built-in handlers nor the writing of their names matters.**  At most
one of them recognises a declaration, and makes a node with a target of it.  So names that stand
for the same handlers give the same tree of every root, or the same failure, at every limit and
without one.  Below the root of such a tree a node of one of the three shapes has a target, and a
terminal node has none. -/
theorem tree_of_same_handlers :
    (∀ d : Declaration, ∀ handler ∈ [Handler.object, Handler.array, Handler.record],
      handler.recognizes d = true →
        (∀ other ∈ [Handler.object, Handler.array, Handler.record],
          other.recognizes d = true → other = handler) ∧
        ∀ ctx parent, ∃ target, (handler.create ctx parent d).target = some target) ∧
    ∀ (ctx : Introspection) (names names' : List String) (handlers handlers' : List Handler),
      Handler.chain names = .ok handlers → Handler.chain names' = .ok handlers' →
      (∀ handler, handler ∈ handlers ↔ handler ∈ handlers') →
      ∀ root : Node,
        (∀ maxDepth, (tree ⟨ctx, handlers', maxDepth⟩ root).outcome
          = (tree ⟨ctx, handlers, maxDepth⟩ root).outcome) ∧
        (∀ outcome, EndsWith ⟨ctx, handlers', none⟩ root outcome
          ↔ EndsWith ⟨ctx, handlers, none⟩ root outcome) ∧
        ∀ a, ((∃ maxDepth, (tree ⟨ctx, handlers, maxDepth⟩ root).outcome = .ok a) ∨
            EndsWith ⟨ctx, handlers, none⟩ root (.ok a)) →
          ∀ h x, h ≠ a.root → a.value? h = some x →
            (x.kind ∈ [NodeKind.object, .array, .record] → x.target.isSome = true) ∧
            (x.kind = .terminal → x.target = none) := by
  have hmem : ∀ handler ∈ [Handler.object, Handler.array, Handler.record],
      handler ∈ Handler.defaults := by
    simp [Handler.defaults]
  refine ⟨?_, ?_⟩
  · intro d handler hh hr
    exact ⟨fun other ho hr' => Handler.eq_of_recognizes (hmem handler hh) (hmem other ho) hr hr',
      Handler.exists_target_of_recognizes (hmem handler hh) hr⟩
  · intro ctx names names' handlers handlers' hnames _ hsame root
    have hb := Handler.mem_defaults_of_chain hnames
    refine ⟨?_, ?_, ?_⟩
    · intro maxDepth
      rw [tree_outcome, tree_outcome, offspring_of_mem_iff hb hsame]
      rfl
    · intro outcome
      rw [endsWith_iff, endsWith_iff, offspring_of_mem_iff hb hsame]
    · intro a ha h x hne hx
      obtain ⟨t, -, ht, rfl⟩ := exists_unfolds_of_built ha
      rcases shape_of_unfolds hb ht hne hx with ⟨hkind, htarget⟩ | ⟨hkind, htarget⟩
      · refine ⟨?_, fun _ => htarget⟩
        intro hmem
        rw [hkind] at hmem
        exact absurd hmem (by decide)
      · refine ⟨fun _ => htarget, ?_⟩
        intro hterminal
        rw [hterminal] at hkind
        exact absurd hkind (by decide)

/-- Names in another order, in capital letters and between blanks, one of them twice, make the same
tree of a pair. -/
theorem tree_of_same_handlers_pair :
    let d : Declaration := ⟨"left", .property, .reference "Leaf", false⟩
    let handlers' := [Handler.object, Handler.record, Handler.array, Handler.object]
    (Handler.object.recognizes d = true ∧
      ∃ target, (Handler.object.create pairAndList (.root "Pair") d).target = some target) ∧
    Handler.chain Handler.defaultNames = .ok Handler.defaults ∧
    Handler.chain [" OBJECT", "Record\t", "array", "object"] = .ok handlers' ∧
    (∀ handler, handler ∈ Handler.defaults ↔ handler ∈ handlers') ∧
    ∃ a x, (tree ⟨pairAndList, Handler.defaults, some 2⟩ (.root "Pair")).outcome = .ok a ∧
      (tree ⟨pairAndList, handlers', some 2⟩ (.root "Pair")).outcome = .ok a ∧
      (⟨0, 1⟩ : Handle) ≠ a.root ∧ a.value? ⟨0, 1⟩ = some x ∧ x.kind = .object ∧
      x.target.isSome = true := by
  intro d handlers'
  obtain ⟨hshapes, hsame⟩ := tree_of_same_handlers
  have hr : Handler.object.recognizes d = true := rfl
  have hnames : Handler.chain Handler.defaultNames = .ok Handler.defaults := rfl
  have hnames' : Handler.chain [" OBJECT", "Record\t", "array", "object"] = .ok handlers' := rfl
  have hmem : ∀ handler, handler ∈ Handler.defaults ↔ handler ∈ handlers' := by
    intro handler
    simp only [Handler.defaults, handlers', List.mem_cons, List.not_mem_nil, or_false]
    tauto
  obtain ⟨htree, -, hbelow⟩ := hsame pairAndList _ _ _ _ hnames hnames' hmem (.root "Pair")
  have hleft : (tree ⟨pairAndList, Handler.defaults, some 2⟩ (.root "Pair")).outcome.map
      (fun a => (a.root, (a.value? ⟨0, 1⟩).map Node.kind)) = .ok (⟨0, 0⟩, some .object) := by
    decide +kernel
  cases hout : (tree ⟨pairAndList, Handler.defaults, some 2⟩ (.root "Pair")).outcome with
  | error failure =>
    rw [hout] at hleft
    cases hleft
  | ok a =>
    rw [hout] at hleft
    obtain ⟨hroot, hkind⟩ := Prod.mk.inj (Except.ok.inj hleft)
    obtain ⟨x, hx, hobject⟩ := Option.map_eq_some_iff.1 hkind
    have hne : (⟨0, 1⟩ : Handle) ≠ a.root := by
      rw [hroot]
      decide
    have htarget := (hbelow a (Or.inl ⟨some 2, hout⟩) ⟨0, 1⟩ x hne hx).1 (by rw [hobject]; decide)
    exact ⟨⟨hr, (hshapes d _ List.mem_cons_self hr).2 pairAndList (.root "Pair")⟩, hnames, hnames',
      hmem, a, x, rfl, (htree (some 2)).trans hout, hne, hx, hobject, htarget⟩

end Decomposition

end FieldTree
