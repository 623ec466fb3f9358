/-
# What a drawing says

A drawing has one line for each node, in pre-order: four characters for each level above the node,
which say on which levels further siblings follow, and then its label.  The tree can be read off
the drawing again, since a line of a child starts otherwise than the lines below it, whatever the
labels look like.

* `Drawing.lines_injective` : trees with the same lines are the same;
* `Drawing.lines_eq_visited` : the lines are those that a queue of trees and prefixes writes;
* `Arena.lead` : what stands before the label of a node, read off its path;
* `Arena.lines_labels` : the lines of a field tree, in pre-order;
* `Arena.run_drawing` : the drawing of a tree after any calls.
-/
import FieldTree.Drawing
import FieldTree.Proofs.Paths

namespace FieldTree

namespace Drawing

/-! ## Lines behind a prefix -/

mutual

/-- What leads to a row of trees only stands before its lines. -/
theorem siblings_eq_map (before : String) : ∀ ts : List (Rose String),
    siblings before ts = (siblings "" ts).map (before ++ ·)
  | [] => rfl
  | t :: rest => by
    rw [siblings, siblings, List.map_cons, List.map_append, below_eq_map (before ++ _),
      below_eq_map ("" ++ _), ← siblings_eq_map before rest]
    simp [String.append_assoc]

theorem below_eq_map (before : String) : ∀ t : Rose String,
    below before t = (below "" t).map (before ++ ·)
  | .node _ children => siblings_eq_map before children

end

theorem below_eq (before : String) (t : Rose String) :
    below before t = siblings before t.children := by
  cases t
  rfl

/-- The lines of a row: those of its first tree, the lower ones behind a trunk, and those of the
others. -/
theorem siblings_cons (t : Rose String) (rest : List (Rose String)) :
    siblings "" (t :: rest) = (branch rest.isEmpty ++ t.value) ::
      ((siblings "" t.children).map (trunk rest.isEmpty ++ ·) ++ siblings "" rest) := by
  rw [siblings, below_eq, siblings_eq_map ("" ++ _), String.empty_append, String.empty_append]

/-! ## Reading the lines of a row -/

/-- Whether a line goes on below a child: it starts with a trunk and not with a branch. -/
def goesOn (line : String) : Bool :=
  line.toList.head? == some '│' || line.toList.head? == some ' '

theorem goesOn_trunk (last : Bool) (line : String) : goesOn (trunk last ++ line) = true := by
  cases last <;> simp [goesOn, trunk]

theorem goesOn_branch (last : Bool) (label : String) : goesOn (branch last ++ label) = false := by
  cases last <;> simp [goesOn, branch]

/-- A branch and a label can be told apart. -/
theorem branch_append_inj {last last' : Bool} {label label' : String} :
    branch last ++ label = branch last' ++ label' ↔ last = last' ∧ label = label' := by
  rw [← String.toList_inj, String.toList_append, String.toList_append]
  cases last <;> cases last' <;> simp [branch, String.toList_inj]

/-- A row starts with a branch. -/
theorem goesOn_of_mem_head? {ts : List (Rose String)} {line : String}
    (h : line ∈ (siblings "" ts).head?) : goesOn line = false := by
  cases ts with
  | nil => cases h
  | cons t rest =>
    rw [siblings_cons, List.head?_cons, Option.mem_some_iff] at h
    rw [← h]
    exact goesOn_branch rest.isEmpty t.value

/-- Where a list goes over from members with a property to one without it can be seen. -/
theorem append_inj_of_head? {α : Type} {p : α → Bool} {xs xs' ys ys' : List α}
    (hxs : ∀ x ∈ xs, p x = true) (hxs' : ∀ x ∈ xs', p x = true)
    (hys : ∀ y ∈ ys.head?, p y = false) (hys' : ∀ y ∈ ys'.head?, p y = false)
    (h : xs ++ ys = xs' ++ ys') : xs = xs' ∧ ys = ys' := by
  have hnone : ∀ {zs : List α}, (∀ z ∈ zs.head?, p z = false) → zs.takeWhile p = [] := by
    intro zs hzs
    cases zs with
    | nil => rfl
    | cons z zs => rw [List.takeWhile_cons, hzs z rfl, if_neg Bool.false_ne_true]
  have htake := congrArg (List.takeWhile p) h
  rw [List.takeWhile_append_of_pos hxs, List.takeWhile_append_of_pos hxs', hnone hys, hnone hys',
    List.append_nil, List.append_nil] at htake
  subst htake
  exact ⟨rfl, List.append_cancel_left h⟩

/-- **Trees with the same lines below their roots have the same below their roots.** -/
theorem children_eq_of_below_eq {t u : Rose String} (h : below "" t = below "" u) :
    t.children = u.children := by
  induction t generalizing u with
  | node value children ih =>
    have hrow : ∀ ts : List (Rose String), (∀ t ∈ ts, t ∈ children) →
        ∀ us, siblings "" ts = siblings "" us → ts = us := by
      intro ts
      induction ts with
      | nil =>
        intro _ us hus
        cases us with
        | nil => rfl
        | cons u us => rw [siblings_cons] at hus; cases hus
      | cons t ts ihs =>
        intro hmem us hus
        rw [List.forall_mem_cons] at hmem
        cases us with
        | nil => rw [siblings_cons] at hus; cases hus
        | cons u us =>
          rw [siblings_cons, siblings_cons, List.cons.injEq, branch_append_inj] at hus
          obtain ⟨⟨hlast, hvalue⟩, hlines⟩ := hus
          rw [hlast] at hlines
          -- The lines below the child go on behind a trunk, up to the branch to the next one.
          obtain ⟨hbelow, hrest⟩ := append_inj_of_head?
            (List.forall_mem_map.2 fun line _ => goesOn_trunk _ line)
            (List.forall_mem_map.2 fun line _ => goesOn_trunk _ line)
            (fun _ => goesOn_of_mem_head?) (fun _ => goesOn_of_mem_head?) hlines
          have hcut := List.map_injective_iff.2 (fun _ _ => (String.append_right_inj _).1) hbelow
          rw [← below_eq, ← below_eq] at hcut
          have hchildren := ih t hmem.1 hcut
          obtain ⟨v, cs⟩ := t
          obtain ⟨w, ds⟩ := u
          obtain rfl : v = w := hvalue
          obtain rfl : cs = ds := hchildren
          rw [ihs hmem.2 us hrest]
    obtain ⟨w, us⟩ := u
    exact hrow children (fun t ht => ht) us h

/-- **Trees with the same lines are the same.** -/
theorem lines_injective : Function.Injective lines := by
  rintro ⟨v, cs⟩ ⟨w, ds⟩ h
  rw [lines, lines, List.cons.injEq] at h
  obtain ⟨hvalue, hbelow⟩ := h
  obtain rfl : v = w := hvalue
  obtain rfl : cs = ds := children_eq_of_below_eq hbelow
  rfl

/-! ## Lines in a text -/

/-- Lines that hold no line feed are found again in their text. -/
theorem splitOn_join {ls : List String} (h : ∀ line ∈ ls, '\n' ∉ line.toList) :
    (String.join (ls.map (· ++ "\n"))).toList.splitOn '\n' = ls.map String.toList ++ [[]] := by
  induction ls with
  | nil => rfl
  | cons line ls ih =>
    rw [List.forall_mem_cons] at h
    have htext : (String.join ((line :: ls).map (· ++ "\n"))).toList
        = line.toList ++ '\n' :: (String.join (ls.map (· ++ "\n"))).toList := by
      simp [String.toList_join]
    have hline : ∀ c ∈ line.toList, (c == '\n') = false := by
      intro c hc
      rw [beq_eq_false_iff_ne]
      rintro rfl
      exact h.1 hc
    have hsplit := ih h.2
    rw [List.splitOn] at hsplit ⊢
    rw [htext, @List.splitOnP_append_cons Char (· == '\n') line.toList _ '\n' rfl, hsplit,
      List.splitOnP_eq_singleton hline]
    rfl

/-! ## The queue -/

/-- A tree that waits to be drawn: whether it is the last of its siblings, and for each level above
it whether what leads to it there was the last. -/
structure Pending where
  last : Bool
  tree : Rose String
  spaces : List Bool

/-- A row of trees that wait to be drawn. -/
def pending (spaces : List Bool) : List (Rose String) → List Pending
  | [] => []
  | tree :: rest => ⟨rest.isEmpty, tree, spaces⟩ :: pending spaces rest

/-- The number of nodes that wait in a queue. -/
def waiting : List Pending → Nat
  | [] => 0
  | next :: queue => next.tree.size + waiting queue

theorem waiting_append (queue later : List Pending) :
    waiting (queue ++ later) = waiting queue + waiting later := by
  induction queue with
  | nil => rw [List.nil_append, waiting, Nat.zero_add]
  | cons next queue ih => rw [List.cons_append, waiting, waiting, ih, Nat.add_assoc]

theorem waiting_pending (spaces : List Bool) (ts : List (Rose String)) :
    waiting (pending spaces ts) = Rose.sizeAll ts := by
  induction ts with
  | nil => rfl
  | cons t rest ih => rw [pending, waiting, ih, Rose.sizeAll]

/-- The lines that a queue writes: that of its first tree, whose children are put before the
others. -/
def visited : List Pending → List String
  | [] => []
  | ⟨last, .node value children, spaces⟩ :: queue =>
    (String.join (spaces.map trunk) ++ branch last ++ value) ::
      visited (pending (spaces ++ [last]) children ++ queue)
termination_by queue => waiting queue
decreasing_by
  rw [waiting_append, waiting_pending, waiting, Rose.size]
  omega

mutual

/-- A row in front of a queue is written as a row of trees. -/
theorem visited_append (spaces : List Bool) (queue : List Pending) : ∀ ts : List (Rose String),
    visited (pending spaces ts ++ queue)
      = siblings (String.join (spaces.map trunk)) ts ++ visited queue
  | [] => rfl
  | t :: rest => by
    rw [pending, List.cons_append, visited_cons rest.isEmpty spaces _ t,
      visited_append spaces queue rest, siblings, List.cons_append, List.append_assoc]

theorem visited_cons (last : Bool) (spaces : List Bool) (queue : List Pending) :
    ∀ t : Rose String, visited (⟨last, t, spaces⟩ :: queue)
      = (String.join (spaces.map trunk) ++ branch last ++ t.value) ::
        (below (String.join (spaces.map trunk) ++ trunk last) t ++ visited queue)
  | .node value children => by
    have hspaces : String.join ((spaces ++ [last]).map trunk)
        = String.join (spaces.map trunk) ++ trunk last := by
      simp [String.join_append]
    rw [visited, visited_append (spaces ++ [last]) queue children, hspaces, below]
    rfl

end

/-- **The lines of a tree are those that a queue writes.** -/
theorem lines_eq_visited (t : Rose String) :
    lines t = t.value :: visited (pending [] t.children) := by
  have hrow := visited_append [] [] t.children
  rw [List.append_nil, visited, List.append_nil] at hrow
  rw [lines, hrow, below_eq]
  rfl

end Drawing

namespace Arena

variable {α : Type} {a : Arena α} {h p : Handle}

/-! ## What leads to a node -/

/-- Whether a node is the last child of its parent. -/
def isLast (a : Arena α) (h : Handle) : Bool :=
  match a.parent? h with
  | some p => (a.children p).getLast? == some h
  | none => true

/-- What stands before everything below a node: four characters for each node on the path to it but
the root, which continue the line to its later siblings, if there are any. -/
def stem (a : Arena α) (h : Handle) : String :=
  String.join ((a.path h).tail.map fun g => Drawing.trunk (a.isLast g))

/-- What stands before the label of a node: nothing for the root, and otherwise what stands before
everything below its parent, and the branch to the node. -/
def lead (a : Arena α) (h : Handle) : String :=
  match a.parent? h with
  | some p => a.stem p ++ Drawing.branch (a.isLast h)
  | none => ""

theorem stem_of_parent? (hp : a.parent? h = some p) :
    a.stem h = a.stem p ++ Drawing.trunk (a.isLast h) := by
  have hne : a.path p ≠ [] := by
    rw [← List.length_pos_iff, length_path (contains_of_parent? hp).1]
    exact Nat.succ_pos _
  rw [stem, path_of_parent? hp, List.tail_append_of_ne_nil hne, List.map_append,
    String.join_append, ← stem]
  simp

theorem Linked.stem_root (ha : a.Linked) : a.stem a.root = "" := by
  have hp := (ha.orphan a.root (contains_root a)).2 rfl
  rw [stem, path_of_orphan (contains_root a) hp]
  rfl

/-- A child with further siblings behind it is not the last. -/
theorem Linked.isLast_of_children_eq (ha : a.Linked) {before after : List Handle}
    (hchildren : a.children p = before ++ h :: after) : a.isLast h = after.isEmpty := by
  have hp : a.parent? h = some p := (ha.agree h p).1 (by simp [hchildren])
  have hnodup := ha.nodup p
  rw [hchildren] at hnodup
  rw [isLast, hp]
  show ((a.children p).getLast? == some h) = after.isEmpty
  rw [hchildren]
  cases hafter : after.getLast? with
  | none =>
    rw [List.getLast?_eq_none_iff] at hafter
    simp [hafter]
  | some g =>
    have hmem := List.mem_of_getLast? hafter
    have hne : g ≠ h := by
      rintro rfl
      exact (List.nodup_cons.1 (List.nodup_append.1 hnodup).2.1).1 hmem
    have hempty : after.isEmpty = false := by
      cases after with
      | nil => cases hmem
      | cons => rfl
    rw [hempty, List.getLast?_append_of_ne_nil _ (List.cons_ne_nil _ _), List.getLast?_cons, hafter]
    simpa using hne

/-! ## The number of characters -/

theorem length_trunk (last : Bool) : (Drawing.trunk last).length = 4 := by
  cases last <;> rfl

theorem length_branch (last : Bool) : (Drawing.branch last).length = 4 := by
  cases last <;> rfl

theorem length_stem (a : Arena α) (h : Handle) : (a.stem h).length = 4 * a.level h := by
  have hjoin : ∀ hs : List Handle,
      (String.join (hs.map fun g => Drawing.trunk (a.isLast g))).length = 4 * hs.length := by
    intro hs
    induction hs with
    | nil => rfl
    | cons g hs ih =>
      rw [List.map_cons, String.join_cons, String.length_append, length_trunk, ih,
        List.length_cons]
      omega
  rw [stem, hjoin, List.length_tail, level]

/-- Four characters stand before the label of a node for each level above it. -/
theorem length_lead (hc : a.contains h = true) : (a.lead h).length = 4 * a.level h := by
  rw [lead]
  cases hp : a.parent? h with
  | none =>
    rw [level, path_of_orphan hc hp]
    rfl
  | some p =>
    show (a.stem p ++ Drawing.branch (a.isLast h)).length = 4 * a.level h
    rw [String.length_append, length_stem, length_branch, level_of_parent? hp]
    omega

/-! ## Lines of a field tree -/

/-- The line of a node: what leads to it, and its label. -/
def line (a : Arena Node) (entry : Handle × Node) : String := a.lead entry.1 ++ entry.2.label

/-- The labels of a tree whose nodes have handles. -/
def labelsOf (t : Rose (Handle × Node)) : Rose String := t.map fun entry => entry.2.label

/-- The trees below some nodes are none only if the nodes are. -/
theorem isEmpty_filterMap_subtree? {handles : List Handle}
    (hall : ∀ g ∈ handles, a.contains g = true) :
    (handles.filterMap a.subtree?).isEmpty = handles.isEmpty := by
  cases handles with
  | nil => rfl
  | cons g handles =>
    obtain ⟨t, ht⟩ := exists_subtree? (hall g List.mem_cons_self)
    rw [List.filterMap_cons_some ht]
    rfl

variable {a : Arena Node}

/-- **The lines below a node are those of the nodes below it.** -/
theorem Linked.below_labelsOf (ha : a.Linked) {t : Rose (Handle × Node)}
    (ht : a.subtree? h = some t) :
    Drawing.below (a.stem h) (labelsOf t) = t.preorder.tail.map a.line := by
  induction t generalizing h with
  | node entry children ih =>
    obtain ⟨_, rfl, rfl⟩ := eq_of_subtree?_eq_node ht
    -- A row is a part of the children that goes up to the last of them.
    have hrow : ∀ (after before : List Handle), a.children h = before ++ after →
        Drawing.siblings (a.stem h) ((after.filterMap a.subtree?).map labelsOf)
          = ((after.filterMap a.subtree?).flatMap Rose.preorder).map a.line := by
      intro after
      induction after with
      | nil => intro _ _; rfl
      | cons c after ihs =>
        intro before hchildren
        have hall : ∀ g ∈ c :: after, a.contains g = true := by
          intro g hg
          refine contains_of_mem_children (h := h) ?_
          rw [hchildren]
          exact List.mem_append_right _ hg
        have hc : c ∈ a.children h := by simp [hchildren]
        have hp : a.parent? c = some h := (ha.agree c h).1 hc
        obtain ⟨⟨x, below⟩, hu⟩ := exists_subtree? (hall c List.mem_cons_self)
        obtain ⟨v, rfl, -⟩ := eq_of_subtree?_eq_node hu
        have hlast : a.isLast c = ((after.filterMap a.subtree?).map labelsOf).isEmpty := by
          rw [List.isEmpty_map, isEmpty_filterMap_subtree? fun g hg =>
            hall g (List.mem_cons_of_mem _ hg), ha.isLast_of_children_eq hchildren]
        have hbelow := ih _ (List.mem_filterMap.2 ⟨c, hc, hu⟩) hu
        have hrest := ihs (before ++ [c]) (by rw [hchildren, List.append_assoc]; rfl)
        have hline : a.line (c, v) = a.stem h ++ Drawing.branch (a.isLast c) ++ v.label := by
          rw [line, lead, hp]
        rw [List.filterMap_cons_some hu, List.map_cons, Drawing.siblings, ← hlast,
          ← stem_of_parent? hp, hbelow, hrest, List.flatMap_cons, List.map_append,
          Rose.preorder_node, List.map_cons, hline]
        rfl
    rw [labelsOf, Rose.map_node, Drawing.below, Rose.preorder_node, List.tail_cons]
    exact hrow (a.children h) [] rfl

/-- **The lines of a field tree are those of its nodes, in pre-order.** -/
theorem Linked.lines_labels (ha : a.Linked) :
    Drawing.lines a.labels = a.tree.preorder.map a.line := by
  have hbelow := ha.below_labelsOf (subtree?_root a)
  rw [ha.stem_root] at hbelow
  have hsubtree := subtree?_root a
  show (labelsOf a.tree).value :: Drawing.below "" (labelsOf a.tree) = a.tree.preorder.map a.line
  rw [hbelow]
  -- Nothing leads to the root.
  cases htree : a.tree with
  | node entry children =>
    rw [htree] at hsubtree
    obtain ⟨v, rfl, -⟩ := eq_of_subtree?_eq_node hsubtree
    have hline : a.line (a.root, v) = v.label := by
      rw [line, lead, (ha.orphan a.root (contains_root a)).2 rfl]
      exact String.empty_append
    rw [Rose.preorder_node, List.map_cons, hline, labelsOf, Rose.map_node]
    rfl

/-- What leads to a node is drawn without line feeds. -/
theorem newline_notMem_lead (a : Arena Node) (h : Handle) : '\n' ∉ (a.lead h).toList := by
  have htrunk : ∀ last, '\n' ∉ (Drawing.trunk last).toList := by decide
  have hbranch : ∀ last, '\n' ∉ (Drawing.branch last).toList := by decide
  rw [lead]
  cases a.parent? h with
  | none => exact List.not_mem_nil
  | some p =>
    show '\n' ∉ (a.stem p ++ Drawing.branch (a.isLast h)).toList
    rw [String.toList_append, List.mem_append, stem, String.toList_join, List.mem_flatMap]
    rintro (⟨piece, hpiece, hmem⟩ | hmem)
    · obtain ⟨g, -, rfl⟩ := List.mem_map.1 hpiece
      exact htrunk _ hmem
    · exact hbranch _ hmem

/-- Where no label holds a line feed, the text of a drawing is made of the lines of the nodes. -/
theorem Linked.splitOn_drawing (ha : a.Linked)
    (hlabels : ∀ h x, a.value? h = some x → '\n' ∉ x.label.toList) :
    a.drawing.toList.splitOn '\n' = (a.tree.preorder.map a.line).map String.toList ++ [[]] := by
  rw [drawing, Drawing.text, ha.lines_labels]
  apply Drawing.splitOn_join
  intro text htext
  obtain ⟨entry, hentry, rfl⟩ := List.mem_map.1 htext
  have hvalue := value?_of_mem_preorder (subtree?_root a) entry hentry
  rw [line, String.toList_append, List.mem_append]
  rintro (hmem | hmem)
  · exact newline_notMem_lead a entry.1 hmem
  · exact hlabels entry.1 entry.2 hvalue hmem

/-- Trees with the same drawing have the same labels in the same places, where no label holds a line
feed. -/
theorem Linked.labels_eq_of_drawing_eq {b : Arena Node} (ha : a.Linked) (hb : b.Linked)
    (hlabels : ∀ h x, a.value? h = some x → '\n' ∉ x.label.toList)
    (hlabels' : ∀ h x, b.value? h = some x → '\n' ∉ x.label.toList)
    (hdrawing : b.drawing = a.drawing) : b.labels = a.labels := by
  have hsplit := hb.splitOn_drawing hlabels'
  rw [hdrawing, ha.splitOn_drawing hlabels, ← ha.lines_labels, ← hb.lines_labels] at hsplit
  have hlines := List.map_injective_iff.2 (fun _ _ => String.toList_inj.1)
    (List.append_cancel_right hsplit)
  exact (Drawing.lines_injective hlines).symm

/-- **A drawing is faithful.**  After any calls, where no label holds a line feed, the text of a
drawing has one line for each node, in pre-order, each ended by a line feed: what leads to the node,
four characters for each level, and its label.  These are the lines that a queue of trees writes,
and another such tree with the same drawing has the same shape and the same labels in it. -/
theorem run_drawing (id : Nat) (value : Node) (calls : List (Call Node)) :
    let a := (ofRoot id value).run calls
    (∀ h x, a.value? h = some x → '\n' ∉ x.label.toList) →
    (∃ lines : List String, a.drawing.toList.splitOn '\n' = lines.map String.toList ++ [[]] ∧
      lines.length = a.size ∧
      lines = a.labels.value :: Drawing.visited (Drawing.pending [] a.labels.children) ∧
      ∀ (i : Nat) (h : Handle), a.preorder[i]? = some h →
        ∃ x, a.value? h = some x ∧ lines[i]? = some (a.lead h ++ x.label)) ∧
    (∀ h, a.contains h = true → (a.lead h).length = 4 * a.level h) ∧
    (∀ (p h : Handle) (before after : List Handle), a.children p = before ++ h :: after →
      a.isLast h = after.isEmpty) ∧
    ∀ (id' : Nat) (value' : Node) (calls' : List (Call Node)),
      let b := (ofRoot id' value').run calls'
      (∀ h x, b.value? h = some x → '\n' ∉ x.label.toList) →
      b.drawing = a.drawing → b.labels = a.labels := by
  intro a hlabels
  have ha : a.Linked := (linked_ofRoot id value).run calls
  have hlength := ha.length_preorder
  rw [preorder_eq, List.length_map] at hlength
  refine ⟨⟨_, ha.splitOn_drawing hlabels, ?_, ?_, ?_⟩, fun h hc => length_lead hc,
    fun p h before after => ha.isLast_of_children_eq, ?_⟩
  · rw [List.length_map, hlength]
  · rw [← ha.lines_labels, Drawing.lines_eq_visited]
  · intro i h hi
    rw [preorder_eq, List.getElem?_map, Option.map_eq_some_iff] at hi
    obtain ⟨entry, hentry, rfl⟩ := hi
    refine ⟨entry.2, ?_, ?_⟩
    · exact value?_of_mem_preorder (subtree?_root a) entry (List.mem_of_getElem? hentry)
    · rw [List.getElem?_map, hentry]
      rfl
  · intro id' value' calls' b hlabels'
    exact ha.labels_eq_of_drawing_eq ((linked_ofRoot id' value').run calls') hlabels hlabels'

/-- A value of a node is that of a slot. -/
theorem exists_slot_of_value? {x : α} {a : Arena α} (hx : a.value? h = some x) :
    ∃ s ∈ a.slots.toList, s.value = x := by
  obtain ⟨s, hs, rfl⟩ := Option.map_eq_some_iff.1 hx
  exact ⟨s, Array.mem_toList_iff.2 (Array.mem_of_getElem? (slot?_eq_some hs).2), rfl⟩

/-- A label that looks like a branch, and a child below it. -/
theorem run_drawing_imitation :
    let calls (n : Nat) : List (Call Node) :=
      [(⟨n, 0⟩, .root "└── x"), (⟨n, 1⟩, .root "│   y"), (⟨n, 0⟩, .root "")]
    let a := (ofRoot 0 (.root "├── r")).run (calls 0)
    let b := (ofRoot 7 (.root "├── r")).run (calls 7)
    (∀ h x, a.value? h = some x → '\n' ∉ x.label.toList) ∧
    (∀ h x, b.value? h = some x → '\n' ∉ x.label.toList) ∧
    a.drawing = "├── r\n├── └── x\n│   └── │   y\n└── \n" ∧
    (a.drawing.toList.splitOn '\n').length = a.size + 1 ∧
    a.children ⟨0, 0⟩ = [⟨0, 1⟩, ⟨0, 3⟩] ∧ a.isLast ⟨0, 1⟩ = false ∧
    a.contains ⟨0, 2⟩ = true ∧ (a.lead ⟨0, 2⟩).length = 4 * a.level ⟨0, 2⟩ ∧
    b.drawing = a.drawing ∧ b.labels = a.labels := by
  intro calls a b
  have hlabels : ∀ h x, a.value? h = some x → '\n' ∉ x.label.toList := by
    have hslots : ∀ s ∈ a.slots.toList, '\n' ∉ s.value.label.toList := by decide +kernel
    intro h x hx
    obtain ⟨s, hs, rfl⟩ := exists_slot_of_value? hx
    exact hslots s hs
  have hlabels' : ∀ h x, b.value? h = some x → '\n' ∉ x.label.toList := by
    have hslots : ∀ s ∈ b.slots.toList, '\n' ∉ s.value.label.toList := by decide +kernel
    intro h x hx
    obtain ⟨s, hs, rfl⟩ := exists_slot_of_value? hx
    exact hslots s hs
  obtain ⟨⟨lines, hsplit, hlength, -⟩, hlead, hlast, hsame⟩ :=
    run_drawing 0 (.root "├── r") (calls 0) hlabels
  have hdrawing : a.drawing = "├── r\n├── └── x\n│   └── │   y\n└── \n" := by decide +kernel
  have hdrawing' : b.drawing = a.drawing := by decide +kernel
  have hchildren : a.children ⟨0, 0⟩ = [⟨0, 1⟩, ⟨0, 3⟩] := by decide +kernel
  have hc : a.contains ⟨0, 2⟩ = true := by decide +kernel
  refine ⟨hlabels, hlabels', hdrawing, ?_, hchildren, hlast ⟨0, 0⟩ ⟨0, 1⟩ [] [⟨0, 3⟩] hchildren, hc,
    hlead _ hc, hdrawing', hsame 7 (.root "├── r") (calls 7) hlabels' hdrawing'⟩
  rw [hsplit, List.length_append, List.length_map, hlength]
  rfl

end Arena

end FieldTree
