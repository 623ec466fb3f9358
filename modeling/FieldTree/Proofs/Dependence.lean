/-
# What a tree depends on

Neither the search for the structs of a type nor the decomposition asks about a name that the root
does not lead to, through variants of unions and types of fields.  `Schema.Depends` is the set of
the names that it leads to.  Schemas that say the same about these names give the same trees and
the same failures, whatever else they define.

* `Schema.symbols_of_agree` : names that a root depends on stand for the same structs;
* `Rose.unfold_congr` : functions that agree along an unfolding compute the same;
* `Settings.tree_of_agree` : what is not depended on does not matter.
-/
import FieldTree.Drawing
import FieldTree.Proofs.Coverage
import FieldTree.Settings.Tree

namespace FieldTree

/-! ## Agreement along an unfolding -/

namespace Rose

variable {α β ε : Type}

theorem mapM_congr {f g : α → Except ε β} {xs : List α} (h : ∀ x ∈ xs, g x = f x) :
    xs.mapM g = xs.mapM f := by
  induction xs with
  | nil => rfl
  | cons x xs ih =>
    rw [List.forall_mem_cons] at h
    rw [List.mapM_cons, List.mapM_cons, h.1, ih h.2]

/-- Two functions that agree on a value and on all that is reached from it compute the same
unfolding of it, or the same path. -/
theorem unfold_congr {next next' : α → List α} {motive : α → Prop}
    (hnext : ∀ x, motive x → next' x = next x)
    (hstep : ∀ x y, motive x → y ∈ next x → motive y) (level : Nat) {x : α} (hx : motive x) :
    unfold next' level x = unfold next level x := by
  induction level generalizing x with
  | zero => rw [unfold, unfold, hnext x hx]
  | succ level ih =>
    have hrow : (next x).mapM (unfold next' level) = (next x).mapM (unfold next level) :=
      mapM_congr fun y hy => ih (hstep x y hx hy)
    rw [unfold, unfold, hnext x hx, hrow]

end Rose

/-! ## The names that a root depends on -/

namespace Schema

/-- The names that the tree of a root type depends on: the root itself, with a union its variants,
and with a struct the types that built-in handlers lead to from its properties. -/
inductive Depends (s : Schema) (root : String) : String → Prop where
  | root : Depends s root root
  | variant {name variant : String} :
      Depends s root name → s.Refers name variant → Depends s root variant
  | field {owner target : String} {d : Declaration} {handler : Handler} :
      Depends s root owner → s.Declares owner d → handler ∈ Handler.defaults →
      handler.Targets d target → Depends s root target

/-- Two schemas say the same about every name that a root depends on in the first of them. -/
def AgreeBelow (s s' : Schema) (root : String) : Prop :=
  ∀ name, s.Depends root name → s'.definition? name = s.definition? name

variable {s s' : Schema} {root name symbol : String}

/-- What a name leads to through unions is depended on with the name. -/
theorem Depends.of_leads (h : s.Depends root name) (hl : s.Leads name symbol) :
    s.Depends root symbol := by
  induction hl with
  | refl => exact h
  | tail _ hrefers ih => exact ih.variant hrefers

/-- The search for structs follows only names that are depended on, so it finds the same. -/
theorem reach_of_agree (hagree : s.AgreeBelow s' root) {seen pending : List String}
    (hpending : ∀ name ∈ pending, s.Depends root name) :
    s'.reach seen pending = s.reach seen pending := by
  fun_induction s.reach seen pending with
  | case1 => rw [reach_nil]
  | case2 seen name pending hs ih =>
    rw [List.forall_mem_cons] at hpending
    rw [reach_of_mem hs, ih hpending.2]
  | case3 seen name pending hs hd ih =>
    rw [List.forall_mem_cons] at hpending
    have hd' : s'.definition? name = none := (hagree name hpending.1).trans hd
    rw [reach_of_undefined hd', ih hpending.2]
  | case4 seen name pending hs members hd ih =>
    rw [List.forall_mem_cons] at hpending
    have hd' : s'.definition? name = some (.struct members) := (hagree name hpending.1).trans hd
    rw [reach_of_struct hs hd', ih hpending.2]
  | case5 seen name pending hs variants hd ih =>
    rw [List.forall_mem_cons] at hpending
    have hd' : s'.definition? name = some (.union variants) := (hagree name hpending.1).trans hd
    rw [reach_of_union hs hd']
    -- The variants are followed before the other names, and are depended on as the union is.
    apply ih
    intro other hother
    rcases List.mem_append.1 hother with hvariant | hrest
    · exact hpending.1.variant ⟨variants, hd, hvariant⟩
    · exact hpending.2 other hrest

/-- **A name that is depended on stands for the same structs in both schemas.** -/
theorem symbols_of_agree (hagree : s.AgreeBelow s' root) (hname : s.Depends root name) :
    s'.symbols name = s.symbols name :=
  reach_of_agree hagree (List.forall_mem_singleton.2 hname)

/-- A struct that a name stands for is depended on with the name. -/
theorem Depends.of_mem_symbols (h : s.Depends root name) (hs : symbol ∈ s.symbols name) :
    s.Depends root symbol :=
  h.of_leads (mem_symbols_iff.1 hs).2

end Schema

/-! ## Trees of schemas that agree -/

namespace Decomposition

variable {s s' : Schema} {root : String} {handlers : List Handler} {maxDepth : Option Nat}
  {x y : Node}

/-- A node is decomposed into a type that the root depends on, if into any. -/
def TargetDepends (s : Schema) (root : String) (x : Node) : Prop :=
  ∀ target, x.target = some target → s.Depends root target

theorem TargetDepends.symbols_eq (hagree : s.AgreeBelow s' root) (hx : TargetDepends s root x) :
    x.symbols s'.introspection = x.symbols s.introspection := by
  rw [Node.symbols, Node.symbols]
  cases ht : x.target with
  | none => rfl
  | some target => exact Schema.symbols_of_agree hagree (hx target ht)

theorem TargetDepends.depends (hx : TargetDepends s root x) {symbol : String}
    (hs : symbol ∈ x.symbols s.introspection) : s.Depends root symbol := by
  rw [Node.symbols] at hs
  cases ht : x.target with
  | none =>
    rw [ht] at hs
    cases hs
  | some target =>
    rw [ht] at hs
    exact (hx target ht).of_mem_symbols hs

/-- Below a node stands the same in both schemas. -/
theorem offspring_of_agree (hb : ∀ handler ∈ handlers, handler ∈ Handler.defaults)
    (hagree : s.AgreeBelow s' root) (hx : TargetDepends s root x) :
    (ofSchema s' handlers maxDepth).offspring x = (ofSchema s handlers maxDepth).offspring x := by
  apply offspring_congr
  · exact congrArg List.head? (hx.symbols_eq hagree)
  · intro symbol hsymbol
    have hdepends : s.Depends root symbol := hx.depends (List.mem_of_head? hsymbol)
    show s'.members? symbol = s.members? symbol
    rw [Schema.members?, Schema.members?, hagree symbol hdepends]
  · intro owner d
    exact child_congr hb s s' maxDepth maxDepth x x owner d

/-- The fields below a node are decomposed into types that the root depends on. -/
theorem targetDepends_of_mem_offspring (hb : ∀ handler ∈ handlers, handler ∈ Handler.defaults)
    (hx : TargetDepends s root x) (hy : y ∈ (ofSchema s handlers maxDepth).offspring x) :
    TargetDepends s root y := by
  obtain ⟨owner, d, howner, hd, rfl⟩ := mem_offspring_iff.1 hy
  intro target ht
  obtain ⟨handler, hmem, hleads⟩ := (target_child_iff hb).1 ht
  exact .field (hx.depends (List.mem_of_head? howner)) hd (hb handler hmem) hleads

/-- **Schemas that agree on what a root depends on give the same tree of it, or the same
failure.** -/
theorem tree_outcome_of_agree (hb : ∀ handler ∈ handlers, handler ∈ Handler.defaults)
    (hagree : s.AgreeBelow s' root) (n : Nat) :
    ((ofSchema s' handlers (some n)).tree (.root root)).outcome
      = ((ofSchema s handlers (some n)).tree (.root root)).outcome := by
  have hroot : TargetDepends s root (.root root) := by
    rintro target ⟨⟩
    exact .root
  have hunfold : Rose.unfold (ofSchema s' handlers (some n)).offspring
      (ofSchema s' handlers (some n)).levels (.root root)
      = Rose.unfold (ofSchema s handlers (some n)).offspring
        (ofSchema s handlers (some n)).levels (.root root) :=
    Rose.unfold_congr (fun x hx => offspring_of_agree hb hagree hx)
      (fun x y hx hy => targetDepends_of_mem_offspring hb hx hy) n hroot
  rw [tree_outcome, tree_outcome, hunfold]
  rfl

end Decomposition

/-! ## Trees under settings -/

namespace Handler

theorem mem_defaults_of_named {name : String} {handler : Handler} (h : named name = .ok handler) :
    handler ∈ defaults := by
  rw [named] at h
  split at h <;> cases h <;> simp [defaults]

/-- A chain that is named holds built-in handlers only. -/
theorem mem_defaults_of_chain {names : List String} {handlers : List Handler}
    (h : chain names = .ok handlers) : ∀ handler ∈ handlers, handler ∈ defaults := by
  rw [chain] at h
  induction names generalizing handlers with
  | nil =>
    cases h
    exact List.forall_mem_nil _
  | cons name names ih =>
    obtain ⟨handler, rest, hhandler, hrest, rfl⟩ := Rose.mapM_cons_eq_ok.1 h
    exact List.forall_mem_cons.2 ⟨mem_defaults_of_named hhandler, ih hrest⟩

end Handler

namespace Settings

/-- **What a root does not depend on does not matter.**  Two schemas that say the same about every
name that the root depends on give the same tree under all settings, or fail in the same way, and
so give the same drawing and the same lens module. -/
theorem tree_of_agree (s s' : Schema) (root : String)
    (hagree : ∀ name, s.Depends root name → s'.definition? name = s.definition? name)
    (settings : Settings) :
    settings.tree s'.introspection root = settings.tree s.introspection root ∧
    (settings.tree s'.introspection root).map Arena.drawing
      = (settings.tree s.introspection root).map Arena.drawing ∧
    (settings.tree s'.introspection root).map (·.lensModule settings.idField)
      = (settings.tree s.introspection root).map (·.lensModule settings.idField) := by
  have htree : settings.tree s'.introspection root = settings.tree s.introspection root := by
    have hsymbols : s'.symbols root = s.symbols root :=
      Schema.symbols_of_agree hagree .root
    have hdecompose : ∀ handlers, Handler.chain settings.handlers = .ok handlers →
        ((Decomposition.ofSchema s' handlers (some settings.maxDepth)).tree (.root root)).outcome
          = ((Decomposition.ofSchema s handlers (some settings.maxDepth)).tree
            (.root root)).outcome :=
      fun handlers hchain =>
        Decomposition.tree_outcome_of_agree (Handler.mem_defaults_of_chain hchain) hagree _
    rw [tree, tree, decomposition, decomposition]
    show (if (s'.symbols root).isEmpty then _ else _) = if (s.symbols root).isEmpty then _ else _
    rw [hsymbols]
    cases hchain : Handler.chain settings.handlers with
    | error failure => rfl
    | ok handlers =>
      split
      · rfl
      · exact hdecompose handlers hchain
  rw [htree]
  exact ⟨rfl, rfl, rfl⟩

open Decomposition (drawing shapes radius shapesNode radiusNode definition?_drawing symbols_drawing
  tree_drawing)

/-- No built-in handler leads anywhere from a radius. -/
theorem not_targets_radius {handler : Handler} (hh : handler ∈ Handler.defaults)
    (target : String) : ¬ handler.Targets radius target := by
  rintro ⟨hrecognizes, -⟩
  simp only [Handler.defaults, List.mem_cons, List.not_mem_nil, or_false] at hh
  rcases hh with rfl | rfl | rfl <;> exact absurd hrecognizes (by decide)

/-- A drawing depends on its shapes, circles and squares. -/
theorem mem_of_depends_drawing {name : String} (h : drawing.Depends "Drawing" name) :
    name ∈ ["Drawing", "Shape", "Circle", "Square"] := by
  obtain ⟨hcircle, hshape, hsquare, hdrawing⟩ := definition?_drawing
  induction h with
  | root => exact List.mem_cons_self
  | @variant name variant _ hrefers ih =>
    obtain ⟨variants, hunion, hmem⟩ := hrefers
    simp only [List.mem_cons, List.not_mem_nil, or_false] at ih
    rcases ih with rfl | rfl | rfl | rfl
    · rw [hdrawing] at hunion
      cases hunion
    · rw [hshape, Option.some.injEq, Definition.union.injEq] at hunion
      rw [← hunion] at hmem
      exact List.mem_cons_of_mem _ (List.mem_cons_of_mem _ hmem)
    · rw [hcircle] at hunion
      cases hunion
    · rw [hsquare] at hunion
      cases hunion
  | @field owner target d handler _ hd hh hleads ih =>
    obtain ⟨members, hstruct, hmem⟩ := hd
    simp only [List.mem_cons, List.not_mem_nil, or_false] at ih
    rcases ih with rfl | rfl | rfl | rfl
    · rw [hdrawing, Option.some.injEq, Definition.struct.injEq] at hstruct
      rw [← hstruct] at hmem
      obtain rfl : d = shapes := List.mem_singleton.1 hmem
      have harray : Handler.array.Targets shapes "Shape" := Handler.targets_ofTarget.2 rfl
      rw [Handler.targets_unique List.mem_cons_self hh harray hleads]
      decide
    · rw [hshape] at hstruct
      cases hstruct
    · rw [hcircle, Option.some.injEq, Definition.struct.injEq] at hstruct
      rw [← hstruct] at hmem
      obtain rfl : d = radius := List.mem_singleton.1 hmem
      exact absurd hleads (not_targets_radius hh target)
    · rw [hsquare] at hstruct
      cases hstruct

/-- Under the defaults the tree of a drawing is built. -/
theorem tree_drawing_defaults :
    Settings.defaults.tree drawing.introspection "Drawing" = .ok (.ofTree 0
      (.node (.root "Drawing") [.node shapesNode [.node radiusNode []]])) := by
  obtain ⟨t, ht, heq⟩ := Decomposition.tree_eq_ok.1 tree_drawing
  have hout : ((Decomposition.ofSchema drawing Handler.defaults (some 32)).tree
      (.root "Drawing")).outcome = .ok (.ofTree 0 t) :=
    Decomposition.tree_eq_ok.2 ⟨t, Rose.unfold_mono ht (by decide), rfl⟩
  rw [tree, if_neg]
  · exact hout.trans (congrArg Except.ok heq.symm)
  · show ¬ (drawing.symbols "Drawing").isEmpty = true
    rw [symbols_drawing.1]
    decide

/-- A triangle, which goes round in a circle, does not matter for a drawing. -/
theorem tree_of_agree_triangle :
    let extended := drawing.withStruct "Triangle" [.declared ⟨"inner", .property,
      .reference "Triangle", true⟩]
    (∀ name, drawing.Depends "Drawing" name →
      extended.definition? name = drawing.definition? name) ∧
    Settings.defaults.tree extended.introspection "Drawing"
      = Settings.defaults.tree drawing.introspection "Drawing" ∧
    (Settings.defaults.tree extended.introspection "Drawing").map Arena.drawing
      = .ok "Drawing\n└── shapes: Shape[] [array]\n    └── radius: number [terminal]\n" := by
  intro extended
  have hagree : ∀ name, drawing.Depends "Drawing" name →
      extended.definition? name = drawing.definition? name := by
    intro name h
    have hne : "Triangle" ≠ name := by
      rintro rfl
      exact absurd (mem_of_depends_drawing h) (by decide)
    exact (Schema.definition?_define drawing "Triangle" name _).trans (if_neg hne)
  obtain ⟨htree, hdrawn, -⟩ := tree_of_agree drawing extended "Drawing" hagree Settings.defaults
  refine ⟨hagree, htree, ?_⟩
  rw [hdrawn, tree_drawing_defaults]
  exact congrArg Except.ok (by decide +kernel)

end Settings

end FieldTree
