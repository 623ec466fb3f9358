/-
# Unfolding a value into a tree

A function that gives the values directly below a value unfolds each value into an ordered
tree, which may have no end.  `Rose.Unfolds` says that a finite tree is such an unfolding,
`Rose.unfold` computes it down to a given level and otherwise returns the path on which it
goes deeper, and `Rose.levelPaths` lists the paths of a fixed number of steps.

* `Rose.Unfolds.unique` : the unfolding of a value is unique;
* `Rose.unfold_eq_ok` : `unfold` returns the unfolding exactly when it is shallow enough;
* `Rose.unfold_eq_error` : otherwise it returns the first path that goes on;
* `Rose.exists_unfold_eq_error_iff` : that is when a chain of steps is too long.
-/
import FieldTree.Rose
import Mathlib.Data.List.Chain
import Mathlib.Data.List.Find

namespace FieldTree.Rose

variable {α β : Type}

/-! ## Induction on trees -/

/-- Induction on a tree, with the hypothesis for every tree directly below the root. -/
@[elab_as_elim, induction_eliminator]
theorem induction {motive : Rose α → Prop}
    (node : ∀ value children, (∀ t ∈ children, motive t) → motive (.node value children)) :
    ∀ t, motive t
  | .node value children => node value children fun t _ => induction node t

/-- The greatest depth of some trees is bounded by what bounds each of them. -/
theorem depthAll_le_iff (trees : List (Rose α)) (n : Nat) :
    depthAll trees ≤ n ↔ ∀ t ∈ trees, t.depth ≤ n := by
  induction trees with
  | nil => simp [depthAll]
  | cons tree rest ih =>
    rw [depthAll, Nat.max_le, ih, List.forall_mem_cons]

/-- A tree is as deep as its deepest child, and one level more. -/
theorem depth_node_le_iff (value : α) (children : List (Rose α)) (n : Nat) :
    (node value children).depth ≤ n + 1 ↔ ∀ t ∈ children, t.depth ≤ n := by
  rw [depth, Nat.add_le_add_iff_right, depthAll_le_iff]

/-- A map keeps the depth of a tree. -/
theorem depth_map (f : α → β) (t : Rose α) : (t.map f).depth = t.depth := by
  apply Nat.le_antisymm
  · induction t with
    | node value children ih =>
      rw [map_node, depth.eq_def (node value children), depth_node_le_iff]
      intro s hs
      obtain ⟨t, ht, rfl⟩ := List.mem_map.1 hs
      exact (ih t ht).trans ((depthAll_le_iff children _).1 le_rfl t ht)
  · induction t with
    | node value children ih =>
      rw [map_node, depth.eq_def (node _ (children.map _)), depth_node_le_iff]
      intro t ht
      exact (ih t ht).trans ((depthAll_le_iff _ _).1 le_rfl _ (List.mem_map_of_mem ht))

/-! ## Finite unfoldings -/

/-- A tree unfolds `next` if below every node stand, in order, the values that `next` gives
for it. -/
inductive Unfolds (next : α → List α) : Rose α → Prop where
  | node {value : α} {children : List (Rose α)} :
      children.map Rose.value = next value → (∀ t ∈ children, t.Unfolds next) →
      (Rose.node value children).Unfolds next

theorem unfolds_node {next : α → List α} {value : α} {children : List (Rose α)} :
    (node value children).Unfolds next ↔
      children.map Rose.value = next value ∧ ∀ t ∈ children, t.Unfolds next := by
  constructor
  · rintro ⟨hvalues, hbelow⟩
    exact ⟨hvalues, hbelow⟩
  · rintro ⟨hvalues, hbelow⟩
    exact .node hvalues hbelow

/-- Two rows of trees with the same values are equal if trees of equal value are. -/
theorem eq_of_map_value_eq {ts us : List (Rose α)} (hvalues : us.map Rose.value = ts.map Rose.value)
    (heq : ∀ t ∈ ts, ∀ u ∈ us, u.value = t.value → u = t) : us = ts := by
  induction ts generalizing us with
  | nil => simpa using hvalues
  | cons t ts ih =>
    cases us with
    | nil => simp at hvalues
    | cons u us =>
      rw [List.map_cons, List.map_cons, List.cons.injEq] at hvalues
      have hhead : u = t := heq t List.mem_cons_self u List.mem_cons_self hvalues.1
      have htail : us = ts := ih hvalues.2 fun t' ht' u' hu' =>
        heq t' (List.mem_cons_of_mem _ ht') u' (List.mem_cons_of_mem _ hu')
      rw [hhead, htail]

/-- **The unfolding of a value is unique.** -/
theorem Unfolds.unique {next : α → List α} {t u : Rose α} (ht : t.Unfolds next)
    (hu : u.Unfolds next) (hvalue : u.value = t.value) : u = t := by
  induction t generalizing u with
  | node value children ih =>
    obtain ⟨value', children'⟩ := u
    obtain rfl : value' = value := hvalue
    rw [unfolds_node] at ht hu
    have hchildren : children' = children := by
      apply eq_of_map_value_eq (hu.1.trans ht.1.symm)
      intro s hs s' hs' hvalues
      exact ih s hs (ht.2 s hs) (hu.2 s' hs') hvalues
    rw [hchildren]

/-- If a tree unfolds one function and its image under a map unfolds another, then the two
functions agree, through the map, on every value of the tree. -/
theorem Unfolds.map_agree {next : α → List α} {next' : β → List β} {f : α → β} {t : Rose α}
    (ht : t.Unfolds next) (hmap : (t.map f).Unfolds next') :
    ∀ x ∈ t.preorder, (next x).map f = next' (f x) := by
  induction t with
  | node value children ih =>
    rw [map_node, unfolds_node] at hmap
    rw [unfolds_node] at ht
    intro x hx
    rw [preorder_node, List.mem_cons, List.mem_flatMap] at hx
    rcases hx with rfl | ⟨s, hs, hxs⟩
    · rw [← ht.1, ← hmap.1, List.map_map, List.map_map]
      apply List.map_congr_left
      rintro ⟨v, cs⟩ -
      rw [Function.comp, Function.comp, map_node]
      rfl
    · exact ih s hs (ht.2 s hs) (hmap.2 _ (List.mem_map_of_mem hs)) x hxs

/-! ## The values of an unfolding -/

theorem preorder_eq_cons (t : Rose α) : t.preorder = t.value :: t.preorder.tail := by
  cases t
  rfl

/-- The values below the root are those of its children's trees. -/
theorem mem_tail_preorder_node {x value : α} {children : List (Rose α)} :
    x ∈ (node value children).preorder.tail ↔ ∃ s ∈ children, x ∈ s.preorder := by
  rw [preorder_node, List.tail_cons, List.mem_flatMap]

/-- What holds of the value at the root, and goes over from each value to those that are given
for it, holds of every value. -/
theorem Unfolds.forall_mem_preorder {next : α → List α} {t : Rose α} {motive : α → Prop}
    (ht : t.Unfolds next) (hroot : motive t.value)
    (hstep : ∀ x y, motive x → y ∈ next x → motive y) : ∀ x ∈ t.preorder, motive x := by
  induction t with
  | node value children ih =>
    rw [unfolds_node] at ht
    intro x hx
    rw [preorder_node, List.mem_cons, List.mem_flatMap] at hx
    rcases hx with rfl | ⟨s, hs, hxs⟩
    · exact hroot
    · have hbelow : s.value ∈ next value := by
        rw [← ht.1]
        exact List.mem_map_of_mem hs
      exact ih s hs (ht.2 s hs) (hstep value s.value hroot hbelow) x hxs

/-- The values below the root are exactly those that are given for some value. -/
theorem Unfolds.mem_tail_preorder_iff {next : α → List α} {t : Rose α} (ht : t.Unfolds next)
    {x : α} : x ∈ t.preorder.tail ↔ ∃ y ∈ t.preorder, x ∈ next y := by
  induction t with
  | node value children ih =>
    rw [unfolds_node] at ht
    rw [mem_tail_preorder_node]
    constructor
    · rintro ⟨s, hs, hx⟩
      rw [preorder_eq_cons, List.mem_cons, ih s hs (ht.2 s hs)] at hx
      rcases hx with rfl | ⟨y, hy, hxy⟩
      · refine ⟨value, by rw [preorder_node]; exact List.mem_cons_self, ?_⟩
        rw [← ht.1]
        exact List.mem_map_of_mem hs
      · exact ⟨y, List.mem_of_mem_tail (mem_tail_preorder_node.2 ⟨s, hs, hy⟩), hxy⟩
    · rintro ⟨y, hy, hxy⟩
      rw [preorder_node, List.mem_cons, List.mem_flatMap] at hy
      rcases hy with rfl | ⟨s, hs, hys⟩
      · rw [← ht.1, List.mem_map] at hxy
        obtain ⟨s, hs, rfl⟩ := hxy
        exact ⟨s, hs, by rw [preorder_eq_cons]; exact List.mem_cons_self⟩
      · exact ⟨s, hs, List.mem_of_mem_tail ((ih s hs (ht.2 s hs)).2 ⟨y, hys, hxy⟩)⟩

/-- The values of a tree whose values are changed by a function. -/
theorem preorder_map (f : α → β) (t : Rose α) : (t.map f).preorder = t.preorder.map f := by
  induction t with
  | node value children ih =>
    rw [map_node, preorder_node, preorder_node, List.map_cons, List.flatMap_map, List.map_flatMap]
    congr 1
    exact List.flatMap_congr ih

/-! ## Computing an unfolding -/

/-- The unfolding of a value, if nothing stands below the given level; otherwise the path to
the first node of that level that has something below it. -/
def unfold (next : α → List α) : Nat → α → Except (List α) (Rose α)
  | 0, x =>
    match next x with
    | [] => .ok (node x [])
    | _ :: _ => .error [x]
  | level + 1, x =>
    match (next x).mapM (unfold next level) with
    | .ok children => .ok (node x children)
    | .error path => .error (x :: path)

/-- A row of computations succeeds if the first one and the others do. -/
theorem mapM_cons_eq_ok {ε : Type} {f : α → Except ε β} {x : α} {xs : List α} {ys : List β} :
    (x :: xs).mapM f = .ok ys ↔ ∃ y zs, f x = .ok y ∧ xs.mapM f = .ok zs ∧ ys = y :: zs := by
  rw [List.mapM_cons]
  cases f x with
  | error e => simp [bind, Except.bind]
  | ok y => cases xs.mapM f <;> simp [bind, Except.bind, pure, Except.pure, eq_comm]

/-- If a computation succeeds with what has a good result's form, then a row of them succeeds
with a row of good results. -/
theorem mapM_eq_ok_iff {ε : Type} {f : α → Except ε β} {value : β → α} {Good : β → Prop}
    (hf : ∀ x y, f x = .ok y ↔ value y = x ∧ Good y) (xs : List α) (ys : List β) :
    xs.mapM f = .ok ys ↔ ys.map value = xs ∧ ∀ y ∈ ys, Good y := by
  induction xs generalizing ys with
  | nil => cases ys <;> simp [pure, Except.pure]
  | cons x xs ih =>
    rw [mapM_cons_eq_ok]
    constructor
    · rintro ⟨y, zs, hy, hzs, rfl⟩
      rw [hf] at hy
      rw [ih] at hzs
      exact ⟨by rw [List.map_cons, hy.1, hzs.1], List.forall_mem_cons.2 ⟨hy.2, hzs.2⟩⟩
    · rintro ⟨hvalues, hgood⟩
      cases ys with
      | nil => simp at hvalues
      | cons y zs =>
        rw [List.map_cons, List.cons.injEq] at hvalues
        rw [List.forall_mem_cons] at hgood
        exact ⟨y, zs, (hf x y).2 ⟨hvalues.1, hgood.1⟩, (ih zs).2 ⟨hvalues.2, hgood.2⟩, rfl⟩

/-- The failure of a computation, if it fails. -/
def failure? {ε : Type} : Except ε β → Option ε
  | .ok _ => none
  | .error e => some e

theorem failure?_eq_some_iff {ε : Type} {r : Except ε β} {e : ε} :
    failure? r = some e ↔ r = .error e := by
  cases r <;> simp [failure?]

/-- A row of computations fails with the first failure. -/
theorem failure?_mapM {ε : Type} (f : α → Except ε β) (xs : List α) :
    failure? (xs.mapM f) = xs.findSome? fun x => failure? (f x) := by
  induction xs with
  | nil => rfl
  | cons x xs ih =>
    rw [List.mapM_cons, List.findSome?_cons]
    cases f x with
    | error e => rfl
    | ok y =>
      show failure? (xs.mapM f >>= fun zs => pure (y :: zs)) = _
      rw [show failure? (.ok y : Except ε β) = none from rfl, ← ih]
      cases xs.mapM f <;> rfl

/-- **`unfold` returns the unfolding of a value exactly when it ends early enough.** -/
theorem unfold_eq_ok {next : α → List α} {level : Nat} {x : α} {t : Rose α} :
    unfold next level x = .ok t ↔ t.value = x ∧ t.Unfolds next ∧ t.depth ≤ level + 1 := by
  induction level generalizing x t with
  | zero =>
    obtain ⟨value, children⟩ := t
    rw [unfold, unfolds_node, depth_node_le_iff]
    constructor
    · intro h
      split at h
      · next hnext =>
        cases h
        simp [Rose.value, hnext]
      · cases h
    · rintro ⟨rfl, ⟨hvalues, -⟩, hdepth⟩
      -- A child would be one level deeper than the level allows.
      obtain rfl : children = [] := by
        apply List.eq_nil_iff_forall_not_mem.2
        intro s hs
        have := hdepth s hs
        obtain ⟨v, cs⟩ := s
        rw [depth] at this
        omega
      rw [Rose.value, ← hvalues]
      rfl
  | succ level ih =>
    obtain ⟨value, children⟩ := t
    have hrow : (next x).mapM (unfold next level) = .ok children ↔
        children.map Rose.value = next x ∧ ∀ s ∈ children, s.Unfolds next ∧ s.depth ≤ level + 1 :=
      mapM_eq_ok_iff (fun _ _ => ih) (next x) children
    rw [unfold, unfolds_node, depth_node_le_iff]
    constructor
    · intro h
      split at h
      · next cs hcs =>
        cases h
        obtain ⟨hvalues, hgood⟩ := hrow.1 hcs
        exact ⟨rfl, ⟨hvalues, fun s hs => (hgood s hs).1⟩, fun s hs => (hgood s hs).2⟩
      · cases h
    · rintro ⟨rfl, ⟨hvalues, hbelow⟩, hdepth⟩
      rw [Rose.value] at hrow ⊢
      rw [hrow.2 ⟨hvalues, fun s hs => ⟨hbelow s hs, hdepth s hs⟩⟩]

/-- An unfolding that ends within some level is found at every deeper level. -/
theorem unfold_mono {next : α → List α} {level level' : Nat} {x : α} {t : Rose α}
    (h : unfold next level x = .ok t) (hle : level ≤ level') :
    unfold next level' x = .ok t := by
  rw [unfold_eq_ok] at h ⊢
  exact ⟨h.1, h.2.1, by omega⟩

/-! ## Paths of a fixed number of steps -/

/-- The paths of `level` steps from a value down, in pre-order: each starts with the value and
goes on to one of the values that `next` gives. -/
def levelPaths (next : α → List α) : Nat → α → List (List α)
  | 0, x => [[x]]
  | level + 1, x => (next x).flatMap fun y => (levelPaths next level y).map (x :: ·)

/-- Whether something stands below the end of a path. -/
def goesOn (next : α → List α) (path : List α) : Bool :=
  path.getLast?.any fun y => !(next y).isEmpty

/-- The paths of a level are the chains of that many steps. -/
theorem mem_levelPaths {next : α → List α} {level : Nat} {x : α} {path : List α} :
    path ∈ levelPaths next level x ↔ ∃ steps, path = x :: steps ∧ steps.length = level ∧
      (x :: steps).IsChain (fun a b => b ∈ next a) := by
  induction level generalizing x path with
  | zero =>
    rw [levelPaths, List.mem_singleton]
    constructor
    · rintro rfl
      exact ⟨[], rfl, rfl, .singleton _⟩
    · rintro ⟨steps, rfl, hlen, -⟩
      rw [List.length_eq_zero_iff.1 hlen]
  | succ level ih =>
    simp only [levelPaths, List.mem_flatMap, List.mem_map, ih]
    constructor
    · rintro ⟨y, hy, -, ⟨steps, rfl, hlen, hchain⟩, rfl⟩
      exact ⟨y :: steps, rfl, by rw [List.length_cons, hlen],
        List.isChain_cons_cons.2 ⟨hy, hchain⟩⟩
    · rintro ⟨steps, rfl, hlen, hchain⟩
      cases steps with
      | nil => simp at hlen
      | cons y steps =>
        rw [List.isChain_cons_cons] at hchain
        exact ⟨y, hchain.1, y :: steps, ⟨steps, rfl, by simpa using hlen, hchain.2⟩, rfl⟩

/-- A step put before a path does not change its end. -/
theorem goesOn_cons {next : α → List α} {level : Nat} {x y : α} {path : List α}
    (h : path ∈ levelPaths next level y) : goesOn next (x :: path) = goesOn next path := by
  obtain ⟨steps, rfl, -, -⟩ := mem_levelPaths.1 h
  rw [goesOn, goesOn, List.getLast?_cons_cons]

/-- A step put before every path of a level keeps which of them is the first to go on. -/
theorem find?_goesOn_map_cons (next : α → List α) (level : Nat) (x y : α) :
    ((levelPaths next level y).map (x :: ·)).find? (goesOn next)
      = ((levelPaths next level y).find? (goesOn next)).map (x :: ·) := by
  rw [List.find?_map]
  congr 1
  apply List.find?_congr
  intro path hpath
  exact goesOn_cons hpath

/-- **Where the unfolding does not end early enough, `unfold` returns the first path that goes
on.** -/
theorem failure?_unfold (next : α → List α) (level : Nat) (x : α) :
    failure? (unfold next level x) = (levelPaths next level x).find? (goesOn next) := by
  induction level generalizing x with
  | zero =>
    rw [unfold, levelPaths, List.find?_singleton]
    cases hnext : next x <;> simp [goesOn, hnext, failure?]
  | succ level ih =>
    have hlast : failure? (unfold next (level + 1) x)
        = (failure? ((next x).mapM (unfold next level))).map (x :: ·) := by
      rw [unfold]
      cases (next x).mapM (unfold next level) <;> rfl
    rw [hlast, failure?_mapM, List.map_findSome?, levelPaths, List.find?_flatMap]
    congr 1
    funext y
    rw [Function.comp, ih, find?_goesOn_map_cons]

/-- `unfold` returns a path exactly if it is the first one of its level that goes on. -/
theorem unfold_eq_error {next : α → List α} {level : Nat} {x : α} {path : List α} :
    unfold next level x = .error path ↔
      (levelPaths next level x).find? (goesOn next) = some path := by
  rw [← failure?_unfold, failure?_eq_some_iff]

/-- The path that `unfold` returns has one value for each level down to the given one. -/
theorem length_of_unfold_eq_error {next : α → List α} {level : Nat} {x : α} {path : List α}
    (h : unfold next level x = .error path) : path.length = level + 1 := by
  obtain ⟨steps, rfl, hlen, -⟩ := mem_levelPaths.1 (List.mem_of_find?_eq_some (unfold_eq_error.1 h))
  rw [List.length_cons, hlen]

/-- A path goes on when it can be made one step longer. -/
theorem goesOn_iff {next : α → List α} {x : α} {steps : List α} :
    goesOn next (x :: steps) = true ↔ ∃ y, y ∈ next ((x :: steps).getLast (by simp)) := by
  rw [goesOn, List.getLast?_eq_some_getLast (List.cons_ne_nil _ _), Option.any_some,
    Bool.not_eq_true', List.isEmpty_eq_false_iff_exists_mem]

/-- **`unfold` returns a path exactly when there is a chain of one step more than the level.** -/
theorem exists_unfold_eq_error_iff {next : α → List α} {level : Nat} {x : α} :
    (∃ path, unfold next level x = .error path) ↔ ∃ steps, steps.length = level + 1 ∧
      (x :: steps).IsChain (fun a b => b ∈ next a) := by
  simp only [unfold_eq_error]
  rw [← Option.isSome_iff_exists, List.find?_isSome]
  constructor
  · rintro ⟨path, hpath, hon⟩
    obtain ⟨steps, rfl, hlen, hchain⟩ := mem_levelPaths.1 hpath
    obtain ⟨y, hy⟩ := goesOn_iff.1 hon
    -- The first path that goes on is a chain, and what it goes on to makes it longer.
    refine ⟨steps ++ [y], by rw [List.length_append, hlen]; rfl, ?_⟩
    rw [← List.cons_append, List.isChain_append]
    refine ⟨hchain, .singleton y, ?_⟩
    intro z hz w hw
    rw [List.getLast?_eq_some_getLast (List.cons_ne_nil _ _), Option.mem_some] at hz
    rw [List.head?_cons, Option.mem_some] at hw
    rw [← hz, ← hw]
    exact hy
  · rintro ⟨steps, hlen, hchain⟩
    obtain ⟨before, y, rfl⟩ : ∃ before y, steps = before ++ [y] :=
      ⟨steps.dropLast, steps.getLast (by rintro rfl; simp at hlen),
        (List.dropLast_append_getLast _).symm⟩
    rw [← List.cons_append, List.isChain_append] at hchain
    refine ⟨x :: before, mem_levelPaths.2 ⟨before, rfl, by simpa using hlen, hchain.1⟩, ?_⟩
    rw [goesOn_iff]
    exact ⟨y, hchain.2.2 _ (List.getLast?_eq_some_getLast _) y rfl⟩

end FieldTree.Rose
