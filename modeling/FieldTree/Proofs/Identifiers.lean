/-
# Identifiers of a lens module

The nodes of a tree give rise to candidates, each a line and the identifier that it declares, and
a module keeps the first candidate of each identifier.

* `Lens.nodup_identifiers_firsts` : no identifier is declared twice;
* `Lens.mem_identifiers_firsts` : no identifier is lost;
* `Lens.declares_of_mem_kept` : each line of a module declares its identifier;
* `Lens.firsts_nil_eq` : what is kept stands at the first places of its identifiers;
* `Lens.lenses_first_candidates` : a module has the line of the first candidate of each identifier.
-/
import FieldTree.Lens
import FieldTree.Proofs.Planting
import Mathlib.Data.List.FinRange
import Mathlib.Data.List.Nodup

namespace FieldTree.Lens

variable {seen : List String} {cs : List Candidate} {c : Candidate} {id key : String} {x : Node}

/-! ## Keeping the first of each identifier -/

/-- What is kept is a candidate whose identifier was free. -/
theorem of_mem_firsts (h : c ∈ firsts seen cs) : c ∈ cs ∧ c.identifier ∉ seen := by
  fun_induction firsts seen cs with
  | case1 => simp at h
  | case2 seen first rest hseen ih =>
    obtain ⟨hmem, hfree⟩ := ih h
    exact ⟨List.mem_cons_of_mem first hmem, hfree⟩
  | case3 seen first rest hseen ih =>
    rcases List.mem_cons.1 h with rfl | h
    · exact ⟨List.mem_cons_self, hseen⟩
    · obtain ⟨hmem, hfree⟩ := ih h
      exact ⟨List.mem_cons_of_mem first hmem, fun hs => hfree (List.mem_cons_of_mem _ hs)⟩

/-- No identifier is declared twice. -/
theorem nodup_identifiers_firsts (seen : List String) (cs : List Candidate) :
    ((firsts seen cs).map Candidate.identifier).Nodup := by
  fun_induction firsts seen cs with
  | case1 => exact List.nodup_nil
  | case2 seen first rest hseen ih => exact ih
  | case3 seen first rest hseen ih =>
    rw [List.map_cons, List.nodup_cons]
    refine ⟨?_, ih⟩
    intro hmem
    obtain ⟨other, hother, heq⟩ := List.mem_map.1 hmem
    exact (of_mem_firsts hother).2 (heq ▸ List.mem_cons_self)

/-- An identifier is declared if there is a candidate for it and it was free. -/
theorem mem_identifiers_firsts :
    id ∈ (firsts seen cs).map Candidate.identifier ↔
      id ∈ cs.map Candidate.identifier ∧ id ∉ seen := by
  fun_induction firsts seen cs with
  | case1 => simp
  | case2 seen first rest hseen ih =>
    rw [ih, List.map_cons, List.mem_cons]
    constructor
    · rintro ⟨hmem, hfree⟩
      exact ⟨Or.inr hmem, hfree⟩
    · rintro ⟨rfl | hmem, hfree⟩
      · exact absurd hseen hfree
      · exact ⟨hmem, hfree⟩
  | case3 seen first rest hseen ih =>
    rw [List.map_cons, List.map_cons, List.mem_cons, ih, List.mem_cons, List.mem_cons]
    by_cases heq : id = first.identifier
    · subst heq
      simp [hseen]
    · simp [heq]

/-! ## The lines of a module -/

/-- The candidates that the module for the nodes of a tree keeps. -/
def kept (key : String) (nodes : List Node) : List Candidate :=
  firsts [] (nodes.flatMap (candidates key))

/-- The declarations of a module are the lines of the candidates that it keeps. -/
theorem declarations_eq (key : String) (nodes : List Node) :
    declarations key nodes = (kept key nodes).map Candidate.line := rfl

/-- A line declares an identifier as a constant. -/
def Candidate.Declares (c : Candidate) : Prop :=
  ∃ body, c.line = "const " ++ c.identifier ++ " = " ++ body

/-- The candidate for the lens on the field that a node stands for. -/
def own (x : Node) : Candidate := ⟨identifier x.ownerOrName x.name, field x.ownerOrName x.name⟩

/-- A candidate of a node is for the field itself, or for the elements of an array, or for the
values of a record. -/
theorem mem_candidates_iff :
    c ∈ candidates key x ↔ x.kind ≠ .root ∧ (c = own x ∨
      (x.kind = .array ∧ ∃ element, x.target = some element ∧
        c = ⟨traversalIdentifier element, traversal element⟩) ∨
      (x.kind = .record ∧ ∃ value, x.target = some value ∧
        c = ⟨identifier value x.name, record value x.name key⟩)) := by
  obtain ⟨kind, name, owner, declaration, target⟩ := x
  cases kind <;> cases target <;> simp [candidates, own]

theorem declares_of_mem_candidates (h : c ∈ candidates key x) : c.Declares := by
  rcases (mem_candidates_iff.1 h).2 with rfl | ⟨-, element, -, rfl⟩ | ⟨-, value, -, rfl⟩
  · refine ⟨"Lens.fromProp<" ++ x.ownerOrName ++ ">()('" ++ x.name ++ "')", ?_⟩
    rw [own, field, show " = Lens.fromProp<" = " = " ++ "Lens.fromProp<" by decide]
    simp only [String.append_assoc]
  · refine ⟨"fromTraversable(array)<" ++ element ++ ">()", ?_⟩
    rw [traversal, show " = fromTraversable(array)<" = " = " ++ "fromTraversable(array)<" by decide]
    simp only [String.append_assoc]
  · refine ⟨"Lens.fromProp<Record<" ++ value ++ "['" ++ key ++ "'], " ++ value ++ ">>()", ?_⟩
    rw [record, show " = Lens.fromProp<Record<" = " = " ++ "Lens.fromProp<Record<" by decide]
    simp only [String.append_assoc]

/-- What a module keeps is a candidate of one of its nodes. -/
theorem exists_of_mem_kept {nodes : List Node} (h : c ∈ kept key nodes) :
    ∃ x ∈ nodes, c ∈ candidates key x :=
  List.mem_flatMap.1 (of_mem_firsts h).1

theorem declares_of_mem_kept {nodes : List Node} (h : c ∈ kept key nodes) : c.Declares := by
  obtain ⟨x, -, hc⟩ := exists_of_mem_kept h
  exact declares_of_mem_candidates hc

/-- **A module declares the identifier of every candidate once.** -/
theorem count_identifiers_kept {nodes : List Node} (hx : x ∈ nodes) (hc : c ∈ candidates key x) :
    ((kept key nodes).map Candidate.identifier).count c.identifier = 1 := by
  apply List.count_eq_one_of_mem (nodup_identifiers_firsts [] _)
  rw [mem_identifiers_firsts]
  exact ⟨List.mem_map_of_mem (List.mem_flatMap.2 ⟨x, hx, hc⟩), List.not_mem_nil⟩

/-! ## The places of first candidates -/

/-- The candidates at some places, in their order. -/
def select (cs : List Candidate) (p : Fin cs.length → Bool) : List Candidate :=
  ((List.finRange cs.length).filter p).map fun i => cs[i]

theorem select_cons (c : Candidate) (cs : List Candidate) (p : Fin (cs.length + 1) → Bool) :
    select (c :: cs) p = (if p 0 then [c] else []) ++ select cs fun i => p i.succ := by
  show ((List.finRange (cs.length + 1)).filter p).map (fun i => (c :: cs)[i]) = _
  rw [List.finRange_succ, List.filter_cons, List.filter_map]
  split
  · rw [List.map_cons, List.map_map]
    rfl
  · rw [List.map_map]
    rfl

theorem select_sublist (cs : List Candidate) (p : Fin cs.length → Bool) :
    (select cs p).Sublist cs := by
  have hall : (List.finRange cs.length).map (fun i => cs[i]) = cs := List.map_getElem_finRange cs
  conv => rhs; rw [← hall]
  exact List.filter_sublist.map _

/-- A candidate stands at the first place of its identifier. -/
def IsFirst (cs : List Candidate) (i : Fin cs.length) : Prop :=
  ∀ j < i, cs[j].identifier ≠ cs[i].identifier

instance (cs : List Candidate) : DecidablePred (IsFirst cs) := fun i =>
  inferInstanceAs (Decidable (∀ j < i, cs[j].identifier ≠ cs[i].identifier))

/-- Nothing stands before the place in front. -/
theorem isFirst_zero (c : Candidate) (cs : List Candidate) :
    IsFirst (c :: cs) (0 : Fin (cs.length + 1)) := by
  intro j hj
  exact absurd hj (Fin.not_lt_zero j)

/-- A later place is a first one if the identifier is not that of the candidate in front. -/
theorem isFirst_succ (c : Candidate) (cs : List Candidate) (i : Fin cs.length) :
    IsFirst (c :: cs) i.succ ↔ cs[i].identifier ≠ c.identifier ∧ IsFirst cs i := by
  show (∀ j : Fin (cs.length + 1), j < i.succ → (c :: cs)[j].identifier ≠ cs[i].identifier) ↔ _
  rw [Fin.forall_fin_succ]
  constructor
  · rintro ⟨hfront, hlater⟩
    exact ⟨(hfront i.succ_pos).symm, fun j hj => hlater j (Fin.succ_lt_succ_iff.2 hj)⟩
  · rintro ⟨hfront, hlater⟩
    exact ⟨fun _ => hfront.symm, fun j hj => hlater j (Fin.succ_lt_succ_iff.1 hj)⟩

/-- What is kept stands at the first places of the identifiers that were free. -/
theorem firsts_eq (seen : List String) (cs : List Candidate) :
    firsts seen cs = select cs fun i => cs[i].identifier ∉ seen ∧ IsFirst cs i := by
  fun_induction firsts seen cs with
  | case1 => rfl
  | case2 seen first rest hseen ih =>
    rw [select_cons, if_neg fun h => (of_decide_eq_true h).1 hseen, List.nil_append, ih]
    congr 1
    funext i
    rw [decide_eq_decide]
    show _ ↔ rest[i].identifier ∉ seen ∧ _
    rw [isFirst_succ]
    constructor
    · rintro ⟨hfree, hfirst⟩
      exact ⟨hfree, fun heq => hfree (heq ▸ hseen), hfirst⟩
    · rintro ⟨hfree, -, hfirst⟩
      exact ⟨hfree, hfirst⟩
  | case3 seen first rest hseen ih =>
    rw [select_cons, if_pos (decide_eq_true ⟨hseen, isFirst_zero first rest⟩),
      List.singleton_append, ih]
    congr 2
    funext i
    rw [decide_eq_decide, List.mem_cons, not_or]
    show _ ↔ rest[i].identifier ∉ seen ∧ _
    rw [isFirst_succ]
    tauto

/-- **What is kept stands at the first places of all identifiers.** -/
theorem kept_eq_select (key : String) (nodes : List Node) :
    kept key nodes = select (nodes.flatMap (candidates key)) fun i => IsFirst _ i := by
  rw [kept, firsts_eq]
  simp only [List.not_mem_nil, not_false_eq_true, true_and]

/-- Before the first place of an identifier no candidate declares it. -/
theorem find?_eq_of_mem_select {cs : List Candidate} (h : c ∈ select cs fun i => IsFirst cs i) :
    cs.find? (·.identifier = c.identifier) = some c := by
  obtain ⟨i, hi, rfl⟩ := List.mem_map.1 h
  have hfirst : IsFirst cs i := of_decide_eq_true (List.mem_filter.1 hi).2
  rw [List.find?_eq_some_iff_getElem]
  refine ⟨decide_eq_true rfl, i, i.isLt, rfl, ?_⟩
  intro j hj
  simpa using hfirst ⟨j, Nat.lt_trans hj i.isLt⟩ hj

/-! ## The lenses of a tree -/

/-- What a node gives rise to besides the lens on its own field. -/
def further (key : String) (x : Node) : List Candidate :=
  match x.kind, x.target with
  | .array, some element => [⟨traversalIdentifier element, traversal element⟩]
  | .record, some value => [⟨identifier value x.name, record value x.name key⟩]
  | _, _ => []

theorem candidates_eq (key : String) (x : Node) :
    candidates key x = if x.kind = .root then [] else own x :: further key x := by
  obtain ⟨kind, name, owner, declaration, target⟩ := x
  cases kind <;> cases target <;> simp [candidates, further, own]

/-- **A module has the line of the first candidate of each identifier.**  The candidates are those
of the nodes of a tree in pre-order: none of a root, else the lens on the field of the node, behind
it the traversal of an array with a target or the lens into a record with one.  A module keeps the
candidates at the first places of their identifiers, and so each identifier of a candidate is
declared once, by its first candidate, and no other is. -/
theorem lenses_first_candidates (a : Arena Node) (key : String) :
    let all := (a.tree.preorder.map Prod.snd).flatMap fun x =>
      if x.kind = .root then [] else own x :: further key x
    let first := select all fun i => IsFirst all i
    a.lenses key = first.map Candidate.line ∧ first.Sublist all ∧
    (∀ id, (first.map Candidate.identifier).count id
      = if id ∈ all.map Candidate.identifier then 1 else 0) ∧
    ∀ c ∈ first, c.Declares ∧ all.find? (·.identifier = c.identifier) = some c := by
  intro all first
  have hall : a.values.flatMap (candidates key) = all := by
    rw [Arena.values_eq]
    exact List.flatMap_congr fun x _ => candidates_eq key x
  have hfirst : kept key a.values = first := by
    rw [kept_eq_select, hall]
  refine ⟨by rw [← hfirst, ← declarations_eq]; rfl, select_sublist all _, ?_, ?_⟩
  · intro id
    have hmem : id ∈ first.map Candidate.identifier ↔ id ∈ all.map Candidate.identifier := by
      rw [← hfirst, ← hall, kept, mem_identifiers_firsts]
      exact and_iff_left List.not_mem_nil
    have hnodup : (first.map Candidate.identifier).Nodup := by
      rw [← hfirst]
      exact nodup_identifiers_firsts [] _
    rw [hnodup.count]
    simp only [hmem]
  · intro c hc
    exact ⟨declares_of_mem_kept (hfirst ▸ hc), find?_eq_of_mem_select hc⟩

/-- A record of its own type, whose two lenses go by one name, and a field that is reached twice. -/
theorem lenses_first_candidates_shared :
    let users : Node := ⟨.record, "users", some "User", none, some "User"⟩
    let tags : Node := ⟨.array, "tags", some "User", none, some "Tag"⟩
    let a := Arena.ofTree 0 (.node (.root "User") [.node users [.node tags []], .node tags []])
    let all := (a.tree.preorder.map Prod.snd).flatMap fun x =>
      if x.kind = .root then [] else own x :: further "id" x
    all.length = 6 ∧
    a.lenses "id" = [field "User" "users", field "User" "tags", traversal "Tag"] ∧
    own users ∈ (select all fun i => IsFirst all i) ∧ (own users).Declares ∧
    all.find? (·.identifier = (own users).identifier) = some (own users) := by
  intro users tags a all
  obtain ⟨-, -, -, hfirst⟩ := lenses_first_candidates a "id"
  have hlength : all.length = 6 := by decide +kernel
  have hlenses : a.lenses "id" = [field "User" "users", field "User" "tags", traversal "Tag"] := by
    decide +kernel
  have hmem : own users ∈ (select all fun i => IsFirst all i) := by decide +kernel
  obtain ⟨hdeclares, hfind⟩ := hfirst (own users) hmem
  exact ⟨hlength, hlenses, hmem, hdeclares, hfind⟩

end FieldTree.Lens
