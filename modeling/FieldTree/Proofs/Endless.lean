/-
# Types without end

Without a limit a decomposition goes on below every field as long as there is something below.
`Decomposition.Ends` is this recursion call by call, with no word about levels: that a call ends,
and with what outcome.  It ends exactly if the root has a finite unfolding.  In a schema, two nodes
that are decomposed into the same struct have the same below them, so no struct comes twice on a
path of a finite unfolding; a type that goes deeper than there are structs has no end.

* `Rose.Unfolds.depth_le_card` : a finite unfolding is no deeper than there are different keys;
* `Decomposition.endsWith_iff` : the recursion without a limit ends with the unfolding of the
  root, if there is one;
* `Decomposition.endsWith_refines_unfolding`, `Decomposition.EndsWith.covers` : what it ends with
  holds the unfolding and, in a schema, covers the structs that are reached;
* `Decomposition.depth_le_structs` : the unfolding of a type of a schema is no deeper than there
  are structs;
* `Decomposition.struct_count_limit` : a limit of as many levels as there are structs tells the
  types without end from all others.
-/
import FieldTree.Proofs.Coverage
import Mathlib.Data.Finset.Card

namespace FieldTree

/-! ## Finite unfoldings repeat nothing -/

namespace Rose

variable {α β : Type} {next : α → List α}

theorem size_le_sizeAll {t : Rose α} {ts : List (Rose α)} (h : t ∈ ts) : t.size ≤ sizeAll ts := by
  induction ts with
  | nil => cases h
  | cons u us ih =>
    rw [sizeAll]
    rcases List.mem_cons.1 h with rfl | h
    · omega
    · have := ih h
      omega

/-- A value below the root of an unfolding has an unfolding with fewer nodes. -/
theorem Unfolds.exists_smaller {t : Rose α} (ht : t.Unfolds next) {x : α}
    (hx : x ∈ t.preorder.tail) : ∃ u : Rose α, u.value = x ∧ u.Unfolds next ∧ u.size < t.size := by
  induction t with
  | node value children ih =>
    obtain ⟨s, hs, hxs⟩ := mem_tail_preorder_node.1 hx
    have hbelow : s.Unfolds next := (unfolds_node.1 ht).2 s hs
    have hsize : s.size < (Rose.node value children).size :=
      Nat.lt_succ_of_le (size_le_sizeAll hs)
    rw [preorder_eq_cons, List.mem_cons] at hxs
    rcases hxs with rfl | hxs
    · exact ⟨s, rfl, hbelow, hsize⟩
    · obtain ⟨u, hu, hunfolds, hlt⟩ := ih s hs hbelow hxs
      exact ⟨u, hu, hunfolds, hlt.trans hsize⟩

/-- In a finite unfolding nothing below the root goes on as the root does: it would have the whole
unfolding below itself again. -/
theorem Unfolds.next_ne {t : Rose α} (ht : t.Unfolds next) {x : α} (hx : x ∈ t.preorder.tail) :
    next x ≠ next t.value := by
  intro heq
  obtain ⟨⟨value, children⟩, rfl, hu, hlt⟩ := ht.exists_smaller hx
  rw [unfolds_node] at hu
  have hagain : (Rose.node t.value children).Unfolds next := .node (hu.1.trans heq) hu.2
  have hsame : Rose.node t.value children = t := ht.unique hagain rfl
  rw [← hsame, size, size] at hlt
  exact Nat.lt_irrefl _ hlt

/-- **A finite unfolding is no deeper than there are different keys**, where values of the same key
go on in the same way and values without a key do not go on. -/
theorem Unfolds.depth_le_card [DecidableEq β] (key : α → Option β)
    (hnone : ∀ x, key x = none → next x = []) (hkey : ∀ x y, key x = key y → next x = next y)
    {t : Rose α} (ht : t.Unfolds next) (keys : Finset β)
    (hkeys : ∀ x ∈ t.preorder, ∀ k, key x = some k → k ∈ keys) : t.depth ≤ keys.card + 1 := by
  induction t generalizing keys with
  | node value children ih =>
    rw [depth_node_le_iff]
    intro s hs
    obtain ⟨hvalues, hbelow⟩ := unfolds_node.1 ht
    cases hk : key value with
    | none =>
      -- Without a key there is nothing below the root.
      rw [hnone value hk, List.map_eq_nil_iff] at hvalues
      rw [hvalues] at hs
      cases hs
    | some k =>
      have hmem : k ∈ keys := hkeys value (by rw [preorder_node]; exact List.mem_cons_self) k hk
      -- The key of the root does not come again below it, so one key less is left.
      have hrest : ∀ x ∈ s.preorder, ∀ k', key x = some k' → k' ∈ keys.erase k := by
        intro x hx k' hk'
        have htail : x ∈ (Rose.node value children).preorder.tail :=
          mem_tail_preorder_node.2 ⟨s, hs, hx⟩
        have hne : k' ≠ k := by
          rintro rfl
          exact ht.next_ne htail (hkey x value (hk'.trans hk.symm))
        exact Finset.mem_erase.2 ⟨hne, hkeys x (List.mem_of_mem_tail htail) k' hk'⟩
      have hdepth : s.depth ≤ (keys.erase k).card + 1 := ih s hs (hbelow s hs) _ hrest
      rwa [Finset.card_erase_add_one hmem] at hdepth

end Rose

namespace Decomposition

/-! ## The recursion without a limit -/

section Recursion

variable {p : Decomposition}

mutual

/-- A call of the recursion without a limit, for a node of an arena, ends with an outcome. -/
inductive Ends (p : Decomposition) : Handle → Arena Node → Except Failure (Arena Node) → Prop where
  | missing {h : Handle} {a : Arena Node} :
      a.value? h = none → Ends p h a (.error (.nodeNotFound h.text))
  | unresolved {h : Handle} {a : Arena Node} {x : Node} :
      a.value? h = some x → x.symbols p.ctx = [] → Ends p h a (.ok a)
  | memberless {h : Handle} {a : Arena Node} {x : Node} {symbol : String} {rest : List String} :
      a.value? h = some x → x.symbols p.ctx = symbol :: rest → p.ctx.members symbol = none →
      Ends p h a (.ok a)
  | fields {h : Handle} {a : Arena Node} {x : Node} {symbol : String} {rest : List String}
      {members : List Member} {outcome : Except Failure (Arena Node)} :
      a.value? h = some x → x.symbols p.ctx = symbol :: rest →
      p.ctx.members symbol = some members →
      FieldsEnd p h x symbol a (Member.properties members) outcome → Ends p h a outcome

/-- The calls for the fields of a node, made one after another as far as they go, end with an
outcome. -/
inductive FieldsEnd (p : Decomposition) : Handle → Node → String → Arena Node →
    List Declaration → Except Failure (Arena Node) → Prop where
  | done {h : Handle} {x : Node} {symbol : String} {a : Arena Node} :
      FieldsEnd p h x symbol a [] (.ok a)
  | refused {h : Handle} {x : Node} {symbol : String} {a : Arena Node} {d : Declaration}
      {ds : List Declaration} {failure : Failure} :
      (p.addField h x symbol d a).outcome = .error failure →
      FieldsEnd p h x symbol a (d :: ds) (.error failure)
  | failed {h g : Handle} {x : Node} {symbol : String} {a b : Arena Node} {d : Declaration}
      {ds : List Declaration} {failure : Failure} :
      (p.addField h x symbol d a).outcome = .ok (g, b) → Ends p g b (.error failure) →
      FieldsEnd p h x symbol a (d :: ds) (.error failure)
  | field {h g : Handle} {x : Node} {symbol : String} {a b c : Arena Node} {d : Declaration}
      {ds : List Declaration} {outcome : Except Failure (Arena Node)} :
      (p.addField h x symbol d a).outcome = .ok (g, b) → Ends p g b (.ok c) →
      FieldsEnd p h x symbol c ds outcome → FieldsEnd p h x symbol a (d :: ds) outcome

end

theorem addField_eq_ok {h g : Handle} {x : Node} {symbol : String} {d : Declaration}
    {a b : Arena Node} :
    (p.addField h x symbol d a).outcome = .ok (g, b) ↔
      a.addChild h (p.child x symbol d) = some (g, b) := by
  rw [addField]
  cases a.addChild h (p.child x symbol d) <;> simp [Traced.ok, Traced.fail]

mutual

/-- A call that ends has added a finite unfolding of its node. -/
theorem Ends.unfolds {h : Handle} {a : Arena Node} {x : Node}
    {outcome : Except Failure (Arena Node)} (hend : p.Ends h a outcome)
    (hx : a.value? h = some x) : ∃ t : Rose Node, t.value = x ∧ t.Unfolds p.offspring ∧
      outcome = .ok (a.addTrees h t.children) := by
  match hend with
  | .missing hnone =>
    rw [hx] at hnone
    cases hnone
  | @Ends.unresolved _ _ _ x' hx' hsymbols =>
    rw [hx, Option.some.injEq] at hx'
    have hnothing := offspring_of_unresolved hsymbols
    exact ⟨.node x' [], hx'.symm, .node hnothing.symm (List.forall_mem_nil _), rfl⟩
  | @Ends.memberless _ _ _ x' _ _ hx' hsymbols hmembers =>
    rw [hx, Option.some.injEq] at hx'
    have hnothing := offspring_of_memberless hsymbols hmembers
    exact ⟨.node x' [], hx'.symm, .node hnothing.symm (List.forall_mem_nil _), rfl⟩
  | @Ends.fields _ _ _ x' symbol _ members _ hx' hsymbols hmembers hfields =>
    rw [hx, Option.some.injEq] at hx'
    have hbelow := offspring_of_members hsymbols hmembers
    obtain ⟨ts, hvalues, hunfolds, hout⟩ := hfields.unfolds (Arena.contains_of_value? hx)
    exact ⟨.node x' ts, hx'.symm, .node (hvalues.trans hbelow.symm) hunfolds, hout⟩

/-- Calls for some fields that end have added a finite unfolding of each of them. -/
theorem FieldsEnd.unfolds {h : Handle} {x : Node} {symbol : String} {a : Arena Node}
    {ds : List Declaration} {outcome : Except Failure (Arena Node)}
    (hend : p.FieldsEnd h x symbol a ds outcome) (hc : a.contains h = true) :
    ∃ ts : List (Rose Node), ts.map Rose.value = ds.map (p.child x symbol) ∧
      (∀ t ∈ ts, t.Unfolds p.offspring) ∧ outcome = .ok (a.addTrees h ts) := by
  match hend with
  | .done => exact ⟨[], rfl, List.forall_mem_nil _, rfl⟩
  | @FieldsEnd.refused _ _ _ _ _ d _ _ hrefused =>
    -- The node is there, so it takes the field.
    obtain ⟨b, -, hfield⟩ := addField_eq (p := p) (x := x) hc symbol d
    rw [hfield] at hrefused
    cases hrefused
  | @FieldsEnd.failed _ _ _ _ _ _ _ d _ _ hfield hfailed =>
    obtain ⟨t, -, -, hout⟩ := hfailed.unfolds (Arena.value?_addChild (addField_eq_ok.1 hfield))
    cases hout
  | @FieldsEnd.field _ _ _ _ _ _ _ c d ds _ hfield hfirst hrest =>
    have hadd := addField_eq_ok.1 hfield
    obtain ⟨t, hvalue, hunfolds, hout⟩ := hfirst.unfolds (Arena.value?_addChild hadd)
    have hc' : c = a.addTree h t :=
      (Except.ok.inj hout).trans (Arena.addTrees_children (hvalue ▸ hadd))
    obtain ⟨ts, hvalues, hrests, hout⟩ :=
      hrest.unfolds (by rw [hc']; exact (Arena.addTree_added t hc).contains hc)
    refine ⟨t :: ts, ?_, List.forall_mem_cons.2 ⟨hunfolds, hrests⟩, ?_⟩
    · rw [List.map_cons, List.map_cons, hvalue, hvalues]
    · rw [hout, hc', Arena.addTrees]

end

/-- A call ends as the calls for the fields of its node do. -/
theorem exists_ends_of_fieldsEnd {h : Handle} {a : Arena Node} {x : Node}
    (hx : a.value? h = some x) : ∃ symbol ds, p.offspring x = ds.map (p.child x symbol) ∧
      ∀ outcome, p.FieldsEnd h x symbol a ds outcome → p.Ends h a outcome := by
  cases hsymbols : x.symbols p.ctx with
  | nil =>
    refine ⟨"", [], offspring_of_unresolved hsymbols, ?_⟩
    rintro _ ⟨⟩
    exact .unresolved hx hsymbols
  | cons symbol rest =>
    cases hmembers : p.ctx.members symbol with
    | none =>
      refine ⟨symbol, [], offspring_of_memberless hsymbols hmembers, ?_⟩
      rintro _ ⟨⟩
      exact .memberless hx hsymbols hmembers
    | some members =>
      exact ⟨symbol, Member.properties members, offspring_of_members hsymbols hmembers,
        fun _ hfields => .fields hx hsymbols hmembers hfields⟩

/-- Calls for some fields end if each field has a finite unfolding whose call ends. -/
theorem fieldsEnd_of_unfolds {h : Handle} {x : Node} {symbol : String} {a : Arena Node}
    {ts : List (Rose Node)} {ds : List Declaration}
    (hends : ∀ t ∈ ts, ∀ (a : Arena Node) (h : Handle), a.value? h = some t.value →
      p.Ends h a (.ok (a.addTrees h t.children)))
    (hvalues : ts.map Rose.value = ds.map (p.child x symbol)) (hc : a.contains h = true) :
    p.FieldsEnd h x symbol a ds (.ok (a.addTrees h ts)) := by
  induction ts generalizing a ds with
  | nil =>
    obtain rfl : ds = [] := by simpa using hvalues.symm
    exact .done
  | cons t ts ih =>
    cases ds with
    | nil => cases hvalues
    | cons d ds =>
      rw [List.forall_mem_cons] at hends
      rw [List.map_cons, List.map_cons, List.cons.injEq] at hvalues
      obtain ⟨hvalue, hvalues⟩ := hvalues
      obtain ⟨b, hadd, hfield⟩ := addField_eq (p := p) (x := x) hc symbol d
      have hfirst := hends.1 b a.next (by rw [hvalue]; exact Arena.value?_addChild hadd)
      rw [Arena.addTrees_children (hvalue ▸ hadd)] at hfirst
      exact .field (by rw [hfield]; rfl) hfirst
        (ih hends.2 hvalues ((Arena.addTree_added _ hc).contains hc))

/-- A call for a node with a finite unfolding ends, and adds it. -/
theorem ends_of_unfolds {t : Rose Node} (ht : t.Unfolds p.offspring) {a : Arena Node} {h : Handle}
    (hx : a.value? h = some t.value) : p.Ends h a (.ok (a.addTrees h t.children)) := by
  induction t generalizing a h with
  | node value children ih =>
    obtain ⟨hvalues, hbelow⟩ := Rose.unfolds_node.1 ht
    obtain ⟨symbol, ds, hds, hends⟩ := exists_ends_of_fieldsEnd (p := p) hx
    apply hends
    exact fieldsEnd_of_unfolds (fun t ht _ _ hx => ih t ht (hbelow t ht) hx)
      (hvalues.trans hds) (Arena.contains_of_value? hx)

/-- The decomposition of a root without a limit ends with an outcome. -/
def EndsWith (p : Decomposition) (root : Node) (outcome : Except Failure (Arena Node)) : Prop :=
  p.Ends (Arena.ofRoot 0 root).root (Arena.ofRoot 0 root) outcome

/-- **The recursion without a limit ends exactly with the finite unfolding of its root**, and goes
on for ever if there is none. -/
theorem endsWith_iff {root : Node} {outcome : Except Failure (Arena Node)} :
    p.EndsWith root outcome ↔
      ∃ t : Rose Node, t.value = root ∧ t.Unfolds p.offspring ∧ outcome = .ok (.ofTree 0 t) := by
  constructor
  · intro hend
    obtain ⟨⟨_, children⟩, rfl, hunfolds, hout⟩ := Ends.unfolds hend (x := root) rfl
    exact ⟨_, rfl, hunfolds, hout⟩
  · rintro ⟨t, rfl, hunfolds, rfl⟩
    exact ends_of_unfolds hunfolds rfl

/-- The recursion ends with one outcome. -/
theorem EndsWith.unique {root : Node} {outcome outcome' : Except Failure (Arena Node)}
    (h : p.EndsWith root outcome) (h' : p.EndsWith root outcome') : outcome' = outcome := by
  obtain ⟨t, ht, hunfolds, rfl⟩ := endsWith_iff.1 h
  obtain ⟨t', ht', hunfolds', rfl⟩ := endsWith_iff.1 h'
  rw [hunfolds.unique hunfolds' (ht'.trans ht.symm)]

/-- **What the recursion ends with holds the unfolding of its root**, whatever that root is and
however deep the unfolding goes; it ends for every root with a finite unfolding. -/
theorem endsWith_refines_unfolding (p : Decomposition) (root : Node) :
    (∀ outcome, p.EndsWith root outcome → ∃ a, outcome = .ok a ∧ p.Unfolded root a) ∧
    ((∃ outcome, p.EndsWith root outcome) ↔
      ∃ t : Rose Node, t.value = root ∧ t.Unfolds p.offspring) := by
  constructor
  · intro outcome hend
    obtain ⟨t, rfl, hunfolds, rfl⟩ := endsWith_iff.1 hend
    exact ⟨_, rfl, unfolded_ofTree hunfolds⟩
  · constructor
    · rintro ⟨outcome, hend⟩
      obtain ⟨t, hvalue, hunfolds, -⟩ := endsWith_iff.1 hend
      exact ⟨t, hvalue, hunfolds⟩
    · rintro ⟨t, hvalue, hunfolds⟩
      exact ⟨_, endsWith_iff.2 ⟨t, hvalue, hunfolds, rfl⟩⟩

end Recursion

/-! ## Types of a schema -/

section Structs

variable {s : Schema} {handlers : List Handler} {maxDepth : Option Nat}

/-- **The unfolding of a type of a schema is no deeper than there are structs**, below the root. -/
theorem depth_le_structs (hb : ∀ handler ∈ handlers, handler ∈ Handler.defaults) {t : Rose Node}
    (ht : t.Unfolds (ofSchema s handlers maxDepth).offspring) :
    t.depth ≤ s.structs.length + 1 := by
  have hcard : t.depth ≤ s.structs.toFinset.card + 1 := by
    refine Rose.Unfolds.depth_le_card (fun x => (x.symbols s.introspection).head?) ?_ ?_ ht _ ?_
    · intro x hx
      exact offspring_of_no_struct (List.head?_eq_none_iff.1 hx)
    · intro x y hxy
      exact offspring_of_head?_eq hb maxDepth maxDepth hxy
    · intro x _ owner howner
      rw [List.mem_toFinset, Schema.mem_structs_iff]
      exact isStruct_of_mem_symbols (List.mem_of_head? howner)
  exact hcard.trans (Nat.succ_le_succ (List.toFinset_card_le _))

/-- **What a recursion without a limit ends with covers the structs that it reaches**, with its
fields and with the lenses of its module. -/
theorem EndsWith.covers (hb : ∀ handler ∈ handlers, handler ∈ Handler.defaults) {root : String}
    {a : Arena Node} (h : (ofSchema s handlers none).EndsWith (.root root) (.ok a)) (key : String) :
    Covers s handlers root key a := by
  obtain ⟨t, hvalue, hunfolds, hout⟩ := endsWith_iff.1 h
  obtain rfl : a = .ofTree 0 t := Except.ok.inj hout
  exact covers_ofTree hb hunfolds hvalue key

/-- What a recursion without a limit ends with is built at every limit of at least as many levels
as there are structs. -/
theorem EndsWith.tree_eq (hb : ∀ handler ∈ handlers, handler ∈ Handler.defaults) {root : String}
    {outcome : Except Failure (Arena Node)}
    (h : (ofSchema s handlers none).EndsWith (.root root) outcome) {n : Nat}
    (hn : s.structs.length ≤ n) :
    ((ofSchema s handlers (some n)).tree (.root root)).outcome = outcome := by
  obtain ⟨t, hvalue, hunfolds, rfl⟩ := endsWith_iff.1 h
  have hdepth : t.depth ≤ n + 1 := (depth_le_structs hb hunfolds).trans (Nat.succ_le_succ hn)
  exact tree_eq_ok.2 ⟨t, Rose.unfold_eq_ok.2 ⟨hvalue, hunfolds, hdepth⟩, rfl⟩

/-- A tree that is built at some limit is what the recursion without a limit ends with. -/
theorem endsWith_of_tree_eq {root : String} {n : Nat} {a : Arena Node}
    (h : ((ofSchema s handlers (some n)).tree (.root root)).outcome = .ok a) :
    (ofSchema s handlers none).EndsWith (.root root) (.ok a) := by
  obtain ⟨t, ht, rfl⟩ := tree_eq_ok.1 h
  obtain ⟨hvalue, hunfolds, -⟩ := Rose.unfold_eq_ok.1 ht
  exact endsWith_iff.2 ⟨t, hvalue, hunfolds, rfl⟩

/-- A type without end exceeds every limit. -/
theorem depthExceeded_of_endless {root : String}
    (h : ∀ outcome, ¬ (ofSchema s handlers none).EndsWith (.root root) outcome) (n : Nat) :
    ∃ path, ((ofSchema s handlers (some n)).tree (.root root)).outcome
      = .error (.depthExceeded path n) := by
  cases hn : ((ofSchema s handlers (some n)).tree (.root root)).outcome with
  | ok a => exact absurd (endsWith_of_tree_eq hn) (h _)
  | error failure =>
    obtain ⟨nodes, -, rfl⟩ := tree_eq_error.1 hn
    exact ⟨namesText nodes, rfl⟩

/-- **A limit of as many levels as there are structs is as good as none.**  If it is exceeded, so
is every limit, and without a limit the recursion never ends; if a tree is built, every limit
above and the recursion without a limit give the same tree.  So no limit from there on refuses a
type whose recursion ends. -/
theorem struct_count_limit (s : Schema) (root : String) (handlers : List Handler)
    (hb : ∀ handler ∈ handlers, handler ∈ Handler.defaults) :
    let count := s.structs.length
    let build (limit : Option Nat) := ((ofSchema s handlers limit).tree (.root root)).outcome
    let Unlimited := (ofSchema s handlers none).EndsWith (.root root)
    ((∃ path limit, build (some count) = .error (.depthExceeded path limit)) →
      (∀ n, ∃ path, build (some n) = .error (.depthExceeded path n)) ∧
      (∀ outcome, ¬ Unlimited outcome) ∧ ∃ path, build none = .error (.endless path)) ∧
    (∀ a, build (some count) = .ok a →
      (∀ n, count ≤ n → build (some n) = .ok a) ∧
      (∀ outcome, Unlimited outcome ↔ outcome = .ok a) ∧ build none = .ok a) ∧
    ∀ outcome, Unlimited outcome → ∀ n, count ≤ n → build (some n) = outcome := by
  intro count build Unlimited
  refine ⟨?_, ?_, fun outcome h n hn => h.tree_eq hb hn⟩
  · rintro ⟨path, limit, herror⟩
    have hnever : ∀ outcome, ¬ Unlimited outcome := by
      intro outcome h
      obtain ⟨t, -, -, rfl⟩ := endsWith_iff.1 h
      have hbuilt : build (some count) = .ok (.ofTree 0 t) := h.tree_eq hb le_rfl
      rw [hbuilt] at herror
      cases herror
    refine ⟨depthExceeded_of_endless hnever, hnever, ?_⟩
    -- Without a limit the build looks at as many levels as there are structs.
    obtain ⟨nodes, hnodes, -⟩ := tree_eq_error.1 herror
    exact ⟨namesText nodes, tree_eq_error.2 ⟨nodes, hnodes, rfl⟩⟩
  · intro a ha
    have hend : Unlimited (.ok a) := endsWith_of_tree_eq ha
    refine ⟨fun n hn => hend.tree_eq hb hn, ?_, ?_⟩
    · intro outcome
      constructor
      · exact hend.unique
      · rintro rfl
        exact hend
    · obtain ⟨t, ht, rfl⟩ := tree_eq_ok.1 ha
      exact tree_eq_ok.2 ⟨t, ht, rfl⟩

/-- The next one of some items. -/
def nextItem : Declaration := ⟨"next", .property, .reference "Next", false⟩

/-- Items in a row: behind each one comes the end, which is not defined, or an item. -/
def itemsInRow : Schema :=
  (Schema.empty.withUnion "Next" ["End", "Item"]).withStruct "Item" [.declared nextItem]

/-- A row of items goes deeper than its one struct allows. -/
theorem tree_itemsInRow : ∃ path limit,
    ((ofSchema itemsInRow Handler.defaults (some 1)).tree (.root "Item")).outcome
      = .error (.depthExceeded path limit) := by
  have hnext : itemsInRow.definition? "Next" = some (.union ["End", "Item"]) := by decide +kernel
  have hend : itemsInRow.definition? "End" = none := by decide +kernel
  have hitem : itemsInRow.definition? "Item" = some (.struct [.declared nextItem]) := by
    decide +kernel
  have hsymbols : itemsInRow.symbols "Next" = ["Item"] := by
    rw [Schema.symbols, Schema.reach_of_union List.not_mem_nil hnext, List.append_nil,
      Schema.reach_of_undefined hend, Schema.reach_of_struct (by decide) hitem, Schema.reach_nil]
  let item : Node := ⟨.object, "next", some "Item", some nextItem, some "Next"⟩
  have hbelow : ∀ x : Node, x.symbols itemsInRow.introspection = ["Item"] →
      item ∈ (ofSchema itemsInRow Handler.defaults (some 1)).offspring x := by
    intro x hx
    rw [offspring_of_struct hx hitem]
    exact List.mem_singleton_self item
  -- An item stands below the root, and another one below it.
  have hroot := hbelow (.root "Item") (Schema.IsStruct.symbols_eq ⟨_, hitem⟩)
  have hagain := hbelow item hsymbols
  obtain ⟨nodes, hnodes⟩ := Rose.exists_unfold_eq_error_iff.2 ⟨[item, item], rfl,
    .cons_cons hroot (.cons_cons hagain (.singleton item))⟩
  exact ⟨_, _, tree_eq_error.2 ⟨nodes, hnodes, rfl⟩⟩

/-- A row of items exceeds every limit; a drawing with two structs is built at every limit from two
levels on. -/
theorem struct_count_limit_items :
    (∀ handler ∈ Handler.defaults, handler ∈ Handler.defaults) ∧
    (∀ n, ∃ path, ((ofSchema itemsInRow Handler.defaults (some n)).tree (.root "Item")).outcome
      = .error (.depthExceeded path n)) ∧
    (∀ outcome, ¬ (ofSchema itemsInRow Handler.defaults none).EndsWith (.root "Item") outcome) ∧
    ∃ a, ∀ n, 2 ≤ n →
      ((ofSchema drawing Handler.defaults (some n)).tree (.root "Drawing")).outcome = .ok a := by
  have hb : ∀ handler ∈ Handler.defaults, handler ∈ Handler.defaults := fun _ h => h
  have hitems : itemsInRow.structs.length = 1 := by decide +kernel
  have hdrawing : drawing.structs.length = 2 := by decide +kernel
  obtain ⟨hexceeded, -⟩ := struct_count_limit itemsInRow "Item" Handler.defaults hb
  obtain ⟨-, hbuilt, -⟩ := struct_count_limit drawing "Drawing" Handler.defaults hb
  rw [hitems] at hexceeded
  rw [hdrawing] at hbuilt
  obtain ⟨hall, hnever, -⟩ := hexceeded tree_itemsInRow
  obtain ⟨a, ha⟩ := exists_tree_drawing
  exact ⟨hb, hall, hnever, a, (hbuilt a ha).1⟩

end Structs

end Decomposition

end FieldTree
