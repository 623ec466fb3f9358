/-
# Handles of several trees

Trees that grow side by side number their slots alike, so a handle also carries the number of its
tree.  `Forest.call` plants a tree or adds a node to one, below any handle at all, and
`Forest.issues` writes down for every handle that some calls hand out which tree it is from, its
value and its parent.  What is written down is exactly what the trees answer afterwards.

* `Arena.appended_addChild` : what an addition changes in a tree;
* `Forest.call_add` : an addition succeeds below a node of its tree, and changes that tree only;
* `Forest.Records.call` : a call keeps the trees in agreement with what is written down;
* `Forest.run_handles` : every handle is at home in the tree that issued it, and in no other.
-/
import FieldTree.Arena.Forest
import FieldTree.Failure
import FieldTree.Proofs.Links

namespace FieldTree

/-! ## One addition to one tree -/

namespace Arena

variable {α : Type} {a b : Arena α} {h p g : Handle} {value : α}

/-- What an addition changes in a tree: there is one node more, the last child of its parent. -/
structure Appended (a : Arena α) (parent : Handle) (value : α) (child : Handle) (b : Arena α) :
    Prop where
  id_eq : b.id = a.id
  fresh : a.contains child = false
  value? : ∀ h, b.value? h = if h = child then some value else a.value? h
  parent? : ∀ h, b.parent? h = if h = child then some parent else a.parent? h
  children : ∀ h, b.children h = if h = parent then a.children h ++ [child] else a.children h

theorem appended_addChild (hadd : a.addChild p value = some (g, b)) : Appended a p value g b where
  id_eq := (addChild_eq_some hadd).2.2.1
  fresh := not_contains_of_addChild hadd
  value? h := by
    rw [Arena.value?, Arena.value?, slot?_addChild_eq hadd]
    split
    · rfl
    · split
      · cases a.slot? h <;> rfl
      · rfl
  parent? := parent?_addChild hadd
  children := children_addChild hadd

/-- A new node is one of the tree that it was added to. -/
theorem Appended.tree_eq (hab : Appended a p value g b) : g.tree = a.id := by
  have hvalue : b.value? g = some value := (hab.value? g).trans (if_pos rfl)
  rw [(contains_iff.1 (contains_of_value? hvalue)).1, hab.id_eq]

theorem value?_isSome : (a.value? h).isSome = a.contains h := by
  rw [value?, Option.isSome_map, slot?_isSome]

theorem value?_ofRoot (id : Nat) (value : α) (h : Handle) :
    (ofRoot id value).value? h = if h = ⟨id, 0⟩ then some value else none := by
  rw [value?, slot?_ofRoot]
  split <;> rfl

end Arena

namespace Forest

variable {α : Type} {f g : Forest α} {number : Nat} {a : Arena α} {h parent child : Handle}
  {value : α}

/-! ## One operation -/

/-- A node stands in the tree whose number its handle carries. -/
theorem tree_eq_of_contains (ha : f.tree? number = some a) (hc : a.contains h = true) :
    h.tree = number :=
  (Arena.contains_iff.1 hc).1.trans (f.numbered number a ha)

/-- A planted tree is found under the next number, and all others where they were. -/
theorem tree?_plant (f : Forest α) (value : α) (other : Nat) :
    (f.plant value).tree? other
      = if other = f.trees.size then some (.ofRoot f.trees.size value) else f.tree? other := by
  rw [tree?, plant, Array.getElem?_push]
  rfl

/-- An addition that succeeds is one to the tree of that number, and changes no other. -/
theorem addChild_eq_some (hadd : f.addChild number parent value = some (child, g)) :
    ∃ a b, f.tree? number = some a ∧ a.addChild parent value = some (child, b) ∧
      ∀ other, g.tree? other = if other = number then some b else f.tree? other := by
  rw [addChild] at hadd
  split at hadd
  · cases hadd
  · next a ha =>
    split at hadd
    · cases hadd
    · next child' b hb =>
      rw [Option.some.injEq, Prod.mk.injEq] at hadd
      obtain ⟨rfl, rfl⟩ := hadd
      refine ⟨a, b, ha, hb, ?_⟩
      intro other
      have hlt : number < f.trees.size := (Array.getElem?_eq_some_iff.1 ha).1
      show (f.trees.setIfInBounds number b)[other]? = _
      rw [Array.getElem?_setIfInBounds]
      by_cases hother : other = number
      · rw [if_pos hother.symm, if_pos hother, if_pos (hother ▸ hlt)]
      · rw [if_neg fun heq => hother heq.symm, if_neg hother]
        rfl

/-- A tree takes a further node below each of its nodes. -/
theorem exists_addChild (ha : f.tree? number = some a) (hc : a.contains parent = true)
    (value : α) : ∃ child g, f.addChild number parent value = some (child, g) := by
  obtain ⟨b, hb⟩ := Arena.exists_addChild hc value
  rw [addChild]
  split
  · next hnone => cases hnone.symm.trans ha
  · next a' ha' =>
    obtain rfl : a' = a := Option.some.inj (ha'.symm.trans ha)
    split
    · next hnone => cases hnone.symm.trans hb
    · exact ⟨_, _, rfl⟩

/-! ## Calls -/

/-- A call on some trees: one that plants a tree, or one that adds a node to a tree. -/
inductive Call (α : Type) where
  | plant (value : α)
  | add (number : Nat) (parent : Handle) (value : α)

/-- The handle that a call hands out, or why it fails, and the trees after it. -/
def call (f : Forest α) : Call α → Except Failure Handle × Forest α
  | .plant value => (.ok (Arena.ofRoot f.trees.size value).root, f.plant value)
  | .add number parent value =>
    match f.addChild number parent value with
    | some (child, g) => (.ok child, g)
    | none => (.error (.nodeNotFound parent.text), f)

/-- The trees after some calls one after another. -/
def run (f : Forest α) (calls : List (Call α)) : Forest α :=
  calls.foldl (fun g c => (g.call c).2) f

/-- **An addition succeeds exactly below a node of its tree.**  Then it changes this tree only, and
there nothing but the children of the parent; when it fails it changes nothing at all. -/
theorem call_add (f : Forest α) (number : Nat) (parent : Handle) (value : α) :
    (∃ a b child, f.tree? number = some a ∧ a.contains parent = true ∧
      (f.call (.add number parent value)).1 = .ok child ∧ a.Appended parent value child b ∧
      ∀ other, (f.call (.add number parent value)).2.tree? other
        = if other = number then some b else f.tree? other) ∨
    (∀ a, f.tree? number = some a → a.contains parent = false) ∧
      f.call (.add number parent value) = (.error (.nodeNotFound parent.text), f) := by
  cases hadd : f.addChild number parent value with
  | some added =>
    obtain ⟨child, g⟩ := added
    obtain ⟨a, b, ha, hb, htrees⟩ := addChild_eq_some hadd
    have hcall : f.call (.add number parent value) = (.ok child, g) := by rw [call, hadd]
    left
    exact ⟨a, b, child, ha, (Arena.addChild_eq_some hb).1, by rw [hcall],
      Arena.appended_addChild hb, by rw [hcall]; exact htrees⟩
  | none =>
    right
    refine ⟨?_, by rw [call, hadd]⟩
    intro a ha
    rw [← Bool.not_eq_true]
    intro hc
    obtain ⟨child, g, hsome⟩ := exists_addChild ha hc value
    cases hadd.symm.trans hsome

/-! ## What handles are issued for -/

/-- A handle that was handed out: by which tree, for which value, and below which node. -/
structure Issue (α : Type) where
  handle : Handle
  number : Nat
  value : α
  parent : Option Handle
  deriving DecidableEq

/-- What a call issues, if it succeeds. -/
def issue? (f : Forest α) (c : Call α) : Option (Issue α) :=
  match (f.call c).1 with
  | .error _ => none
  | .ok child =>
    match c with
    | .plant value => some ⟨child, f.trees.size, value, none⟩
    | .add number parent value => some ⟨child, number, value, some parent⟩

/-- What some calls issue one after another. -/
def issues (f : Forest α) : List (Call α) → List (Issue α)
  | [] => []
  | c :: calls => (f.issue? c).toList ++ (f.call c).2.issues calls

/-- A tree answers for a handle what was written down when it was handed out. -/
def Answers (f : Forest α) (i : Issue α) : Prop :=
  ∃ a, f.tree? i.number = some a ∧ a.value? i.handle = some i.value ∧
    a.parent? i.handle = i.parent

/-- What is written down is what the trees answer, and no handle is written down twice. -/
structure Records (f : Forest α) (log : List (Issue α)) : Prop where
  nodup : (log.map Issue.handle).Nodup
  mem_iff : ∀ i, i ∈ log ↔ f.Answers i

theorem records_empty : (empty : Forest α).Records [] where
  nodup := List.nodup_nil
  mem_iff i := by
    refine iff_of_false List.not_mem_nil ?_
    rintro ⟨a, ha, -⟩
    cases ha

/-- A handle that a tree has was issued by this tree. -/
theorem Records.exists_mem {log : List (Issue α)} (hf : f.Records log)
    (ha : f.tree? number = some a) (hc : a.contains h = true) :
    ∃ i ∈ log, i.handle = h ∧ i.number = number := by
  rw [← Arena.value?_isSome] at hc
  obtain ⟨x, hx⟩ := Option.isSome_iff_exists.1 hc
  exact ⟨⟨h, number, x, a.parent? h⟩, (hf.mem_iff _).2 ⟨a, ha, hx, rfl⟩, rfl, rfl⟩

/-- A tree has what it issued, and nothing that another tree issued. -/
theorem Records.contains_iff {log : List (Issue α)} (hf : f.Records log) {i : Issue α}
    (hi : i ∈ log) (ha : f.tree? number = some a) :
    a.contains i.handle = true ↔ number = i.number := by
  obtain ⟨a', ha', hvalue, -⟩ := (hf.mem_iff i).1 hi
  have hc : a'.contains i.handle = true := Arena.contains_of_value? hvalue
  constructor
  · intro hc'
    exact (tree_eq_of_contains ha hc').symm.trans (tree_eq_of_contains ha' hc)
  · rintro rfl
    rwa [Option.some.inj (ha.symm.trans ha')]

/-- Something new may be written down when it is what the trees answer afterwards, and they answer
for all other handles as before. -/
theorem Records.concat {log : List (Issue α)} (hf : f.Records log) {new : Issue α}
    (hfresh : ∀ i ∈ log, i.handle ≠ new.handle)
    (hanswers : ∀ i, g.Answers i ↔ i = new ∨ f.Answers i) : g.Records (log ++ [new]) where
  nodup := by
    rw [List.map_append, List.map_singleton, List.nodup_append]
    refine ⟨hf.nodup, List.nodup_singleton _, ?_⟩
    intro h hmem h' hmem'
    obtain ⟨i, hi, rfl⟩ := List.mem_map.1 hmem
    rw [List.mem_singleton.1 hmem']
    exact hfresh i hi
  mem_iff i := by
    rw [List.mem_append, List.mem_singleton, hf.mem_iff, hanswers, or_comm]

theorem answers_iff {i : Issue α} (ha : f.tree? i.number = some a) :
    f.Answers i ↔ a.value? i.handle = some i.value ∧ a.parent? i.handle = i.parent := by
  rw [Answers, ha]
  simp

/-- A tree that is as it was answers as it did. -/
theorem answers_congr {i : Issue α} (hsame : g.tree? i.number = f.tree? i.number) :
    g.Answers i ↔ f.Answers i := by
  rw [Answers, hsame]
  rfl

/-- A planted tree answers for its root. -/
theorem answers_plant (f : Forest α) (value : α) (i : Issue α) :
    (f.plant value).Answers i ↔
      i = ⟨⟨f.trees.size, 0⟩, f.trees.size, value, none⟩ ∨ f.Answers i := by
  obtain ⟨h, number, x, parent⟩ := i
  rw [Issue.mk.injEq]
  by_cases hnumber : number = f.trees.size
  · subst hnumber
    have hnone : ¬ f.Answers ⟨h, f.trees.size, x, parent⟩ := by
      rintro ⟨a, ha, -⟩
      rw [tree?, Array.getElem?_eq_none le_rfl] at ha
      cases ha
    have hnew : (f.plant value).tree? f.trees.size = some (.ofRoot f.trees.size value) := by
      rw [tree?_plant, if_pos rfl]
    rw [answers_iff hnew, Arena.value?_ofRoot, Arena.parent?_ofRoot,
      Option.ite_none_right_eq_some, Option.some.injEq]
    constructor
    · rintro ⟨⟨rfl, rfl⟩, rfl⟩
      exact Or.inl ⟨rfl, rfl, rfl, rfl⟩
    · rintro (⟨rfl, -, rfl, rfl⟩ | hf)
      · exact ⟨⟨rfl, rfl⟩, rfl⟩
      · exact absurd hf hnone
  · have hsame : (f.plant value).tree? number = f.tree? number := by
      rw [tree?_plant, if_neg hnumber]
    rw [answers_congr hsame]
    simp [hnumber]

/-- After an addition the tree answers for the new node as well. -/
theorem answers_add {b : Arena α} (ha : f.tree? number = some a)
    (hab : a.Appended parent value child b)
    (htrees : ∀ other, g.tree? other = if other = number then some b else f.tree? other)
    (i : Issue α) :
    g.Answers i ↔ i = ⟨child, number, value, some parent⟩ ∨ f.Answers i := by
  obtain ⟨h, other, x, q⟩ := i
  rw [Issue.mk.injEq]
  by_cases hnumber : other = number
  · subst hnumber
    rw [answers_iff (htrees other |>.trans (if_pos rfl)), answers_iff ha, hab.value?, hab.parent?]
    by_cases hchild : h = child
    · have hnone : a.value? h = none := by
        rw [← Option.not_isSome_iff_eq_none, Arena.value?_isSome, hchild, hab.fresh]
        exact Bool.false_ne_true
      simp [hchild, hchild ▸ hnone, eq_comm]
    · simp [hchild]
  · rw [answers_congr (htrees other |>.trans (if_neg hnumber))]
    simp [hnumber]

/-! ## Any number of calls -/

/-- **A call keeps the trees in agreement with what is written down.** -/
theorem Records.call {log : List (Issue α)} (hf : f.Records log) (c : Call α) :
    (f.call c).2.Records (log ++ (f.issue? c).toList) := by
  cases c with
  | plant value =>
    refine hf.concat ?_ (answers_plant f value)
    intro i hi heq
    -- The number of the new tree is that of no tree before.
    obtain ⟨a, ha, hvalue, -⟩ := (hf.mem_iff i).1 hi
    have hnumber := tree_eq_of_contains ha (Arena.contains_of_value? hvalue)
    rw [heq] at hnumber
    have hlt : i.number < f.trees.size := (Array.getElem?_eq_some_iff.1 ha).1
    exact absurd hnumber (Nat.ne_of_gt hlt)
  | add number parent value =>
    rcases f.call_add number parent value with
      ⟨a, b, child, ha, -, hcall, hab, htrees⟩ | ⟨-, hcall⟩
    · have hissue : f.issue? (.add number parent value)
          = some ⟨child, number, value, some parent⟩ := by rw [issue?, hcall]
      rw [hissue]
      refine hf.concat ?_ (answers_add ha hab htrees)
      intro i hi heq
      -- The new handle carries the number of its tree, which did not have it before.
      obtain ⟨a', ha', hvalue, -⟩ := (hf.mem_iff i).1 hi
      have hnumber := tree_eq_of_contains ha' (Arena.contains_of_value? hvalue)
      have hc := (hf.contains_iff hi ha).2 (by rw [← hnumber, heq, hab.tree_eq, f.numbered _ a ha])
      rw [heq, hab.fresh] at hc
      cases hc
    · have hissue : f.issue? (.add number parent value) = none := by rw [issue?, hcall]
      rw [hissue, hcall, Option.toList_none, List.append_nil]
      exact hf

/-- **So do calls of any kind in any order**, whichever of them fail. -/
theorem Records.run {log : List (Issue α)} (hf : f.Records log) (calls : List (Call α)) :
    (f.run calls).Records (log ++ f.issues calls) := by
  induction calls generalizing f log with
  | nil =>
    rw [issues, List.append_nil]
    exact hf
  | cons c calls ih =>
    have hrest := ih (hf.call c)
    rwa [List.append_assoc] at hrest

/-- An addition succeeds in the tree that issued the parent, and in no other. -/
theorem Records.exists_add_iff {log : List (Issue α)} (hf : f.Records log) (number : Nat)
    (parent : Handle) (value : α) :
    (∃ child, (f.call (.add number parent value)).1 = .ok child) ↔
      ∃ i ∈ log, i.handle = parent ∧ i.number = number := by
  rcases f.call_add number parent value with
    ⟨a, b, child, ha, hc, hcall, -⟩ | ⟨hnone, hcall⟩
  · exact iff_of_true ⟨child, hcall⟩ (hf.exists_mem ha hc)
  · refine iff_of_false ?_ ?_
    · rintro ⟨child, hchild⟩
      rw [hcall] at hchild
      cases hchild
    · rintro ⟨i, hi, rfl, rfl⟩
      obtain ⟨a, ha, -⟩ := (hf.mem_iff i).1 hi
      have hc := (hf.contains_iff hi ha).2 rfl
      rw [hnone a ha] at hc
      cases hc

/-- **A handle is at home in the tree that issued it, for good.**  After any calls on any number of
trees no handle has been issued twice.  Whatever calls come later, the tree that issued a handle
answers for it with the value and the parent that it was issued for, and takes further nodes below
it; no other tree does.  An addition succeeds exactly if the tree issued the parent.  One that
fails says that the node was not found, and changes nothing; one that succeeds puts a new handle
behind the children of the parent, and changes nothing else in this tree, and no other tree.  Nor
does planting a tree change another one. -/
theorem run_handles (before after : List (Call α)) :
    let f := (empty : Forest α).run before
    let log := (empty : Forest α).issues before
    (log.map Issue.handle).Nodup ∧
    (∀ i ∈ log, (f.run after).Answers i ∧
      ∀ number a, (f.run after).tree? number = some a →
        (a.contains i.handle = true ↔ number = i.number) ∧
        ((a.value? i.handle).isSome = true ↔ number = i.number) ∧
        ∀ value, (∃ child, ((f.run after).call (.add number i.handle value)).1 = .ok child) ↔
          number = i.number) ∧
    (∀ number parent value,
      let result := f.call (.add number parent value)
      ((∃ child, result.1 = .ok child) ↔ ∃ i ∈ log, i.handle = parent ∧ i.number = number) ∧
      (∀ failure, result.1 = .error failure →
        failure = .nodeNotFound parent.text ∧ result.2 = f) ∧
      ∀ child, result.1 = .ok child → ∃ a b, f.tree? number = some a ∧
        result.2.tree? number = some b ∧ a.Appended parent value child b ∧
        ∀ other, other ≠ number → result.2.tree? other = f.tree? other) ∧
    ∀ value,
      let result := f.call (.plant value)
      result.1 = .ok ⟨f.trees.size, 0⟩ ∧
      result.2.tree? f.trees.size = some (.ofRoot f.trees.size value) ∧
      ∀ other, other ≠ f.trees.size → result.2.tree? other = f.tree? other := by
  intro f log
  have hf : f.Records log := records_empty.run before
  have hlater := hf.run after
  refine ⟨hf.nodup, ?_, ?_, ?_⟩
  · intro i hi
    have hi' := List.mem_append_left (f.issues after) hi
    refine ⟨(hlater.mem_iff i).1 hi', ?_⟩
    intro number a ha
    have hc := hlater.contains_iff hi' ha
    refine ⟨hc, by rw [Arena.value?_isSome, hc], ?_⟩
    intro value
    rw [← hc, hlater.exists_add_iff]
    constructor
    · rintro ⟨j, hj, heq, rfl⟩
      rw [← heq]
      exact (hlater.contains_iff hj ha).2 rfl
    · exact hlater.exists_mem ha
  · intro number parent value result
    refine ⟨hf.exists_add_iff number parent value, ?_⟩
    rcases f.call_add number parent value with
      ⟨a, b, child, ha, -, hcall, hab, htrees⟩ | ⟨-, hcall⟩
    · have hresult : result.1 = .ok child := hcall
      refine ⟨fun failure hfailure => ?_, fun child' hchild => ?_⟩
      · rw [hresult] at hfailure
        cases hfailure
      · obtain rfl : child = child' := Except.ok.inj (hresult.symm.trans hchild)
        exact ⟨a, b, ha, (htrees number).trans (if_pos rfl), hab,
          fun other hother => (htrees other).trans (if_neg hother)⟩
    · have hresult : result = (.error (.nodeNotFound parent.text), f) := hcall
      rw [hresult]
      refine ⟨fun failure hfailure => ⟨(Except.error.inj hfailure).symm, rfl⟩, ?_⟩
      rintro child ⟨⟩
  · intro value result
    refine ⟨rfl, (tree?_plant f value _).trans (if_pos rfl), ?_⟩
    intro other hother
    exact (tree?_plant f value other).trans (if_neg hother)

/-- Two trees with handles in the same places: each takes what is put below its own nodes, and
neither knows the other's. -/
theorem run_handles_pair :
    let before : List (Call String) := [.plant "r", .plant "s", .add 0 ⟨0, 0⟩ "a", .add 1 ⟨1, 0⟩ "b"]
    let after : List (Call String) := [.add 0 ⟨1, 1⟩ "x", .add 0 ⟨0, 1⟩ "c"]
    let f := (empty : Forest String).run before
    let i : Issue String := ⟨⟨1, 1⟩, 1, "b", some ⟨1, 0⟩⟩
    i ∈ (empty : Forest String).issues before ∧ (f.run after).Answers i ∧
    (∃ a, (f.run after).tree? 0 = some a ∧ (a.contains ⟨1, 1⟩ = true ↔ 0 = 1)) ∧
    (f.call (.add 0 ⟨1, 1⟩ "x")).1 = .error (.nodeNotFound
      "NodeId \x7b tree: 1, index: Index \x7b index: 1, generation: 0 \x7d \x7d") ∧
    (f.call (.add 0 ⟨1, 1⟩ "x")).2 = f ∧
    (f.call (.add 1 ⟨1, 1⟩ "y")).1 = .ok ⟨1, 2⟩ ∧
    ∃ a b, f.tree? 1 = some a ∧ (f.call (.add 1 ⟨1, 1⟩ "y")).2.tree? 1 = some b ∧
      a.Appended ⟨1, 1⟩ "y" ⟨1, 2⟩ b ∧ 0 ≠ 1 ∧
      (f.call (.add 1 ⟨1, 1⟩ "y")).2.tree? 0 = f.tree? 0 := by
  intro before after f i
  obtain ⟨-, hissued, hadd, -⟩ := run_handles before after
  have hi : i ∈ (empty : Forest String).issues before := by decide +kernel
  have hfirst : ((f.run after).tree? 0).isSome = true := by decide +kernel
  have hfails : (f.call (.add 0 ⟨1, 1⟩ "x")).1 = .error (.nodeNotFound
      "NodeId \x7b tree: 1, index: Index \x7b index: 1, generation: 0 \x7d \x7d") := by
    decide +kernel
  have hadds : (f.call (.add 1 ⟨1, 1⟩ "y")).1 = .ok ⟨1, 2⟩ := by decide +kernel
  obtain ⟨a, ha⟩ := Option.isSome_iff_exists.1 hfirst
  obtain ⟨hanswers, hhome⟩ := hissued i hi
  obtain ⟨b, c, hb, hc, happended, hothers⟩ := (hadd 1 ⟨1, 1⟩ "y").2.2 ⟨1, 2⟩ hadds
  exact ⟨hi, hanswers, ⟨a, ha, (hhome 0 a ha).1⟩, hfails, ((hadd 0 ⟨1, 1⟩ "x").2.1 _ hfails).2,
    hadds, b, c, hb, hc, happended, by decide, hothers 0 (by decide)⟩

end Forest

end FieldTree
