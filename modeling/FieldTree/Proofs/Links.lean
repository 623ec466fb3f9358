/-
# Links in an arena

Every node of an arena is linked twice: its slot names its parent, and its parent's slot lists it
among the children.  Adding a node writes both links, in two steps.  `Arena.Linked` says that the
two directions agree and that only the root has no parent; it holds of a root alone and is kept
by every addition, so it holds of every arena that calls of `Arena.addChild` can make.

* `Arena.parent?_addChild`, `Arena.children_addChild` : the links after an addition;
* `Arena.Linked.run` : the links agree after any calls, whichever of them fail;
* `Arena.run_links` : what an arena looks like after any calls.
-/
import FieldTree.Proofs.Planting
import Mathlib.Data.List.Nodup
import Mathlib.Logic.Relation

namespace FieldTree.Arena

variable {α : Type} {a b : Arena α} {h g p : Handle} {value : α}

/-! ## Links after an addition -/

theorem contains_next (a : Arena α) : a.contains a.next = false := by
  rw [Bool.eq_false_iff]
  intro hc
  exact Nat.lt_irrefl _ (contains_iff.1 hc).2

theorem slot?_of_not_contains (hc : a.contains h = false) : a.slot? h = none := by
  rw [← Option.not_isSome_iff_eq_none, slot?_isSome, hc]
  exact Bool.false_ne_true

/-- The slots after an addition: one is new, the parent's has one more child, and all others are
as they were. -/
theorem slot?_addChild_eq (hadd : a.addChild p value = some (g, b)) (h : Handle) :
    b.slot? h = if h = g then some ⟨value, some p, []⟩
      else if h = p then (a.slot? h).map (·.withChild g) else a.slot? h := by
  by_cases hg : h = g
  · rw [hg, if_pos rfl, slot?_addChild hadd]
  · rw [if_neg hg]
    have hslots := addChild_slots hadd h.index
    obtain ⟨hp, rfl, hid, -⟩ := addChild_eq_some hadd
    by_cases htree : h.tree = a.id
    · -- Handles of one tree are told apart by their places.
      have heq : ∀ k : Handle, k.tree = a.id → (h.index = k.index ↔ h = k) := by
        intro k hk
        rw [Handle.mk.injEq, htree, hk]
        simp
      rw [slot?_of_tree_eq (htree.trans hid.symm), hslots, slot?_of_tree_eq htree]
      simp only [show a.slots.size = a.next.index from rfl, heq a.next rfl,
        heq p (contains_iff.1 hp).1, if_neg hg]
    · have hne : h ≠ p := fun heq => htree (heq ▸ (contains_iff.1 hp).1)
      rw [if_neg hne, slot?, slot?, if_neg htree, if_neg (hid ▸ htree)]

/-- A new node is no node of the arena before it was added. -/
theorem not_contains_of_addChild (hadd : a.addChild p value = some (g, b)) :
    a.contains g = false := by
  rw [(addChild_eq_some hadd).2.1, contains_next]

theorem contains_addChild_iff (hadd : a.addChild p value = some (g, b)) :
    b.contains h = true ↔ h = g ∨ a.contains h = true := by
  rw [← slot?_isSome, ← slot?_isSome, slot?_addChild_eq hadd]
  by_cases hg : h = g
  · simp [hg]
  · rw [if_neg hg]
    split <;> simp [hg]

/-- A new node has the parent that it was added below; every other node has the one it had. -/
theorem parent?_addChild (hadd : a.addChild p value = some (g, b)) (h : Handle) :
    b.parent? h = if h = g then some p else a.parent? h := by
  rw [parent?, parent?, slot?_addChild_eq hadd]
  split
  · rfl
  · split
    · cases a.slot? h <;> rfl
    · rfl

/-- A node that another one was added below has it as its last child; every other node has the
children that it had. -/
theorem children_addChild (hadd : a.addChild p value = some (g, b)) (h : Handle) :
    b.children h = if h = p then a.children h ++ [g] else a.children h := by
  have hp := (addChild_eq_some hadd).1
  have hgp : g ≠ p := by
    rintro rfl
    rw [not_contains_of_addChild hadd] at hp
    cases hp
  by_cases hg : h = g
  · subst hg
    rw [if_neg hgp, children, children, slot?_addChild hadd,
      slot?_of_not_contains (not_contains_of_addChild hadd)]
  · rw [children, children, slot?_addChild_eq hadd, if_neg hg]
    by_cases hhp : h = p
    · rw [← slot?_isSome, ← hhp] at hp
      obtain ⟨s, hs⟩ := Option.isSome_iff_exists.1 hp
      rw [if_pos hhp, if_pos hhp, hs]
      rfl
    · rw [if_neg hhp, if_neg hhp]

/-! ## Agreement of the two directions -/

/-- The links of an arena agree: a node is listed among the children of its parent and nowhere
else, no list names a node twice, and the root alone has no parent. -/
structure Linked (a : Arena α) : Prop where
  agree : ∀ h p, h ∈ a.children p ↔ a.parent? h = some p
  nodup : ∀ p, (a.children p).Nodup
  orphan : ∀ h, a.contains h = true → (a.parent? h = none ↔ h = a.root)

/-- The root is the only node of a tree that has just been planted. -/
theorem slot?_ofRoot (id : Nat) (value : α) (h : Handle) :
    (ofRoot id value).slot? h = if h = ⟨id, 0⟩ then some ⟨value, none, []⟩ else none := by
  obtain ⟨tree, index⟩ := h
  rw [slot?]
  by_cases htree : tree = id
  · subst htree
    cases index <;> simp [ofRoot]
  · simp [ofRoot, htree]

theorem children_ofRoot (id : Nat) (value : α) (h : Handle) :
    (ofRoot id value).children h = [] := by
  rw [children, slot?_ofRoot]
  by_cases hh : h = ⟨id, 0⟩
  · rw [if_pos hh]
  · rw [if_neg hh]

theorem parent?_ofRoot (id : Nat) (value : α) (h : Handle) :
    (ofRoot id value).parent? h = none := by
  rw [parent?, slot?_ofRoot]
  by_cases hh : h = ⟨id, 0⟩
  · rw [if_pos hh]
    rfl
  · rw [if_neg hh]
    rfl

/-- The links of a root alone agree. -/
theorem linked_ofRoot (id : Nat) (value : α) : (ofRoot id value).Linked := by
  refine ⟨?_, ?_, ?_⟩
  · intro h p
    rw [children_ofRoot, parent?_ofRoot]
    simp
  · intro p
    rw [children_ofRoot]
    exact List.nodup_nil
  · intro h hc
    rw [← slot?_isSome, slot?_ofRoot] at hc
    by_cases hh : h = ⟨id, 0⟩
    · exact ⟨fun _ => hh, fun _ => parent?_ofRoot id value h⟩
    · rw [if_neg hh] at hc
      cases hc

/-- An addition keeps the links in agreement. -/
theorem Linked.addChild (ha : a.Linked) (hadd : a.addChild p value = some (g, b)) : b.Linked := by
  have hfresh : a.contains g = false := not_contains_of_addChild hadd
  have hnew : ∀ q, g ∉ a.children q := by
    intro q hmem
    rw [contains_of_mem_children hmem] at hfresh
    cases hfresh
  refine ⟨?_, ?_, ?_⟩
  · intro h q
    rw [children_addChild hadd, parent?_addChild hadd]
    by_cases hg : h = g
    · subst hg
      -- The new node is listed where it was put, and it was not listed before.
      rw [if_pos rfl, Option.some.injEq]
      by_cases hq : q = p
      · simp [hq]
      · rw [if_neg hq]
        exact iff_of_false (hnew q) (fun heq => hq heq.symm)
    · rw [if_neg hg, ← ha.agree]
      by_cases hq : q = p
      · simp [hq, hg]
      · rw [if_neg hq]
  · intro q
    rw [children_addChild hadd]
    split
    · refine (ha.nodup q).append (List.nodup_singleton g) ?_
      rw [List.disjoint_singleton]
      exact hnew q
    · exact ha.nodup q
  · intro h hc
    have hroot : b.root = a.root := by rw [root, root, (addChild_eq_some hadd).2.2.1]
    rw [parent?_addChild hadd, hroot]
    rcases (contains_addChild_iff hadd).1 hc with rfl | hc
    · rw [if_pos rfl]
      refine iff_of_false (by simp) ?_
      rintro rfl
      rw [contains_root] at hfresh
      cases hfresh
    · have hne : h ≠ g := by
        rintro rfl
        rw [hc] at hfresh
        cases hfresh
      rw [if_neg hne]
      exact ha.orphan h hc

/-! ## Any number of calls -/

/-- A call that adds a node: below which one, and with what value. -/
abbrev Call (α : Type) := Handle × α

/-- The arena after a call; one that fails changes nothing. -/
def attempt (a : Arena α) (call : Call α) : Arena α :=
  match a.addChild call.1 call.2 with
  | some (_, b) => b
  | none => a

/-- The arena after some calls one after another. -/
def run (a : Arena α) (calls : List (Call α)) : Arena α := calls.foldl attempt a

/-- How many of some calls succeed. -/
def successes (a : Arena α) : List (Call α) → Nat
  | [] => 0
  | call :: calls =>
    (if (a.addChild call.1 call.2).isSome then 1 else 0) + (a.attempt call).successes calls

@[simp] theorem run_cons (a : Arena α) (call : Call α) (calls : List (Call α)) :
    a.run (call :: calls) = (a.attempt call).run calls := rfl

/-- What holds of an arena and is kept by every addition holds after any calls. -/
theorem run_induction {motive : Arena α → Prop} (hinit : motive a)
    (hstep : ∀ {a b : Arena α} {p g : Handle} {value : α},
      motive a → a.addChild p value = some (g, b) → motive b)
    (calls : List (Call α)) : motive (a.run calls) := by
  induction calls generalizing a with
  | nil => exact hinit
  | cons call calls ih =>
    rw [run_cons]
    apply ih
    rw [attempt]
    split
    · next hadd => exact hstep hinit hadd
    · exact hinit

/-- **The links agree after any calls.** -/
theorem Linked.run (ha : a.Linked) (calls : List (Call α)) : (a.run calls).Linked :=
  run_induction ha Linked.addChild calls

theorem id_run (a : Arena α) (calls : List (Call α)) : (a.run calls).id = a.id :=
  run_induction (motive := fun b => b.id = a.id) rfl
    (fun hid hadd => (addChild_eq_some hadd).2.2.1.trans hid) calls

/-- Every call that succeeds adds one node. -/
theorem size_run (a : Arena α) (calls : List (Call α)) :
    (a.run calls).size = a.size + a.successes calls := by
  induction calls generalizing a with
  | nil => rfl
  | cons call calls ih =>
    rw [run_cons, ih, successes, attempt]
    cases hadd : a.addChild call.1 call.2 with
    | none => rw [Option.isSome_none, if_neg Bool.false_ne_true, Nat.zero_add]
    | some added =>
      obtain ⟨g, b⟩ := added
      rw [Option.isSome_some, if_pos rfl, size_addChild hadd, Nat.add_assoc]

/-! ## Following links -/

/-- A parent that a slot names is a node of the same tree. -/
theorem contains_of_parent? (hp : a.parent? h = some p) :
    a.contains p = true ∧ p.index < h.index := by
  rw [parent?, Option.bind_eq_some_iff] at hp
  obtain ⟨s, hs, hparent⟩ := hp
  obtain ⟨htree, holder⟩ := a.older h.index s (slot?_eq_some hs).2 p hparent
  have hc : a.contains h = true := by rw [← slot?_isSome, hs]; rfl
  exact ⟨contains_iff.2 ⟨htree, holder.trans (contains_iff.1 hc).2⟩, holder⟩

/-- A step from a node up to its parent. -/
def Rises (a : Arena α) (h p : Handle) : Prop := a.parent? h = some p

/-- Links to parents lead from every node to the root, since each leads to an older node. -/
theorem Linked.rises_root (ha : a.Linked) {h : Handle} (hc : a.contains h = true) :
    Relation.ReflTransGen a.Rises h a.root := by
  cases hp : a.parent? h with
  | none => rw [(ha.orphan h hc).1 hp]
  | some p =>
    obtain ⟨hpc, holder⟩ := contains_of_parent? hp
    exact .head hp (ha.rises_root hpc)
termination_by h.index

/-- What holds of the root, and of a node if it does of its parent, holds of every node. -/
theorem Linked.node_induction (ha : a.Linked) {motive : Handle → Prop} (root : motive a.root)
    (child : ∀ p c, a.contains p = true → c ∈ a.children p → motive p → motive c)
    (hc : a.contains h = true) : motive h := by
  induction ha.rises_root hc using Relation.ReflTransGen.head_induction_on with
  | refl => exact root
  | head hstep _ ih =>
    have hp := (contains_of_parent? hstep).1
    exact child _ _ hp ((ha.agree _ _).2 hstep) (ih hp)

/-- **After any calls an arena is one ordered tree.**  The root alone has no parent, and is
nobody's child; every other node has a parent, which lists it once among its children, and no
other node lists it.  All links are to nodes of this tree, those to parents lead to the root, and
there are as many nodes as calls that succeeded, and the root. -/
theorem run_links (id : Nat) (value : α) (calls : List (Call α)) :
    let a := (ofRoot id value).run calls
    (∀ h, a.contains h = true → (a.parent? h = none ↔ h = a.root)) ∧
    (a.contains a.root = true ∧ ∀ p, a.root ∉ a.children p) ∧
    (∀ h, a.contains h = true → h ≠ a.root → ∃ p, a.parent? h = some p ∧ a.contains p = true ∧
      (a.children p).count h = 1 ∧ ∀ q, h ∈ a.children q → q = p) ∧
    (∀ (i : Nat) (s : Slot α), a.slots[i]? = some s → ∀ c, c ∈ s.children ∨ s.parent = some c →
      c.tree = id ∧ a.contains c = true) ∧
    (∀ h, a.contains h = true → Relation.ReflTransGen (fun g p => a.parent? g = some p) h a.root) ∧
    a.size = 1 + (ofRoot id value).successes calls := by
  intro a
  have hlinked : a.Linked := (linked_ofRoot id value).run calls
  have hid : a.id = id := id_run (ofRoot id value) calls
  refine ⟨hlinked.orphan, ⟨contains_root a, ?_⟩, ?_, ?_, fun h hc => hlinked.rises_root hc,
    size_run (ofRoot id value) calls⟩
  · intro p hmem
    have hnone := (hlinked.orphan a.root (contains_root a)).2 rfl
    rw [(hlinked.agree a.root p).1 hmem] at hnone
    cases hnone
  · intro h hc hne
    cases hp : a.parent? h with
    | none => exact absurd ((hlinked.orphan h hc).1 hp) hne
    | some p =>
      have hmem : h ∈ a.children p := (hlinked.agree h p).2 hp
      have hcount := List.count_eq_one_of_mem (hlinked.nodup p) hmem
      refine ⟨p, rfl, (contains_of_parent? hp).1, hcount, ?_⟩
      intro q hq
      rw [(hlinked.agree h q).1 hq] at hp
      exact Option.some.inj hp
  · intro i s hs c hlink
    have hi : i < a.slots.size := (Array.getElem?_eq_some_iff.1 hs).1
    rcases hlink with hchild | hparent
    · obtain ⟨htree, -, hlt⟩ := a.newer i s hs c hchild
      exact ⟨htree.trans hid, contains_iff.2 ⟨htree, hlt⟩⟩
    · obtain ⟨htree, hlt⟩ := a.older i s hs c hparent
      exact ⟨htree.trans hid, contains_iff.2 ⟨htree, hlt.trans hi⟩⟩

/-- Of four calls one is for a node of another tree and one for a node that was never made; the
other two make a chain below the root. -/
theorem run_links_chain :
    let calls : List (Call String) := [(⟨7, 0⟩, "a"), (⟨8, 0⟩, "b"), (⟨7, 5⟩, "c"), (⟨7, 1⟩, "d")]
    let a := (ofRoot 7 "root").run calls
    a.contains ⟨7, 2⟩ = true ∧ (⟨7, 2⟩ : Handle) ≠ a.root ∧
      (∃ p, a.parent? ⟨7, 2⟩ = some p ∧ a.contains p = true ∧
        (a.children p).count ⟨7, 2⟩ = 1 ∧ ∀ q, (⟨7, 2⟩ : Handle) ∈ a.children q → q = p) ∧
      Relation.ReflTransGen (fun g p => a.parent? g = some p) ⟨7, 2⟩ a.root ∧ a.size = 3 := by
  intro calls a
  obtain ⟨-, -, hlisted, -, hrises, hsize⟩ := run_links 7 "root" calls
  have hc : a.contains ⟨7, 2⟩ = true := by decide +kernel
  have hne : (⟨7, 2⟩ : Handle) ≠ a.root := by decide +kernel
  have hcount : (ofRoot 7 "root").successes calls = 2 := by decide +kernel
  exact ⟨hc, hne, hlisted _ hc hne, hrises _ hc, hsize.trans (by rw [hcount])⟩

end FieldTree.Arena
