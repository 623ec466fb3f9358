/-
# Declarations that displace each other

All declarations of a module share one set of identifiers, and of two with the same identifier the
later one is dropped.  The lens on a field has the field and its owner in its identifier, with a
sign between the two, so two lenses meet only if both agree in title case, as long as the sign does
not occur in a field.  Traversals have identifiers of another form and never meet a lens.

* `Lens.filter_firsts` : among some identifiers the others do not matter;
* `Lens.append_sign_inj` : what stands before and behind a sign that does not overlap itself;
* `Lens.identifier_eq_iff`, `Lens.field_lenses_apart` : when the lenses on two fields meet;
* `Text.isUpper_of_mem_lower` : a text in lower case has no letters from `A` to `Z`;
* `Lens.traversals_apart` : the traversals of a module, and the rest of it.
-/
import FieldTree.Proofs.Identifiers
import FieldTree.Proofs.Naming
import FieldTree.Proofs.TitleCase

namespace FieldTree

namespace Lens

variable {seen seen' : List String} {cs : List Candidate} {c : Candidate} {id key : String}
  {x y : Node}

/-! ## Candidates of some identifiers -/

/-- What is kept depends only on which of the candidates' identifiers have been declared. -/
theorem firsts_congr (h : ∀ c ∈ cs, (c.identifier ∈ seen ↔ c.identifier ∈ seen')) :
    firsts seen cs = firsts seen' cs := by
  fun_induction firsts seen cs generalizing seen' with
  | case1 => rfl
  | case2 seen first rest hseen ih =>
    rw [List.forall_mem_cons] at h
    rw [firsts, if_pos (h.1.1 hseen), ih h.2]
  | case3 seen first rest hseen ih =>
    rw [List.forall_mem_cons] at h
    rw [firsts, if_neg (mt h.1.2 hseen), ih]
    intro c hc
    rw [List.mem_cons, List.mem_cons, h.2 c hc]

/-- **Among some identifiers the others do not matter**: it makes no difference whether the
candidates of other identifiers are left out before or after. -/
theorem filter_firsts (p : String → Bool) (seen : List String) (cs : List Candidate) :
    (firsts seen cs).filter (fun c => p c.identifier)
      = firsts seen (cs.filter fun c => p c.identifier) := by
  fun_induction firsts seen cs with
  | case1 => rfl
  | case2 seen first rest hseen ih =>
    rw [ih, List.filter_cons]
    split
    · rw [firsts, if_pos hseen]
    · rfl
  | case3 seen first rest hseen ih =>
    rw [List.filter_cons, List.filter_cons, ih]
    split
    · next hp => rw [firsts, if_neg hseen]
    · next hp =>
      -- None of the candidates that stay has the identifier of the one that goes.
      apply firsts_congr
      intro c hc
      have hne : c.identifier ≠ first.identifier := fun heq => hp (heq ▸ (List.mem_filter.1 hc).2)
      rw [List.mem_cons, or_iff_right hne]

/-- Where all identifiers have been declared nothing is kept. -/
theorem firsts_eq_nil (h : ∀ c ∈ cs, c.identifier ∈ seen) : firsts seen cs = [] := by
  rw [List.eq_nil_iff_forall_not_mem]
  intro c hc
  obtain ⟨hmem, hfree⟩ := of_mem_firsts hc
  exact hfree (h c hmem)

/-- Of candidates with one identifier the first is kept. -/
theorem firsts_of_forall_eq (h : ∀ c ∈ cs, c.identifier = id) :
    firsts [] cs = cs.head?.toList := by
  cases cs with
  | nil => rfl
  | cons first rest =>
    rw [List.forall_mem_cons] at h
    have hrest : ∀ c ∈ rest, c.identifier ∈ [first.identifier] := by
      intro c hc
      rw [List.mem_singleton, h.2 c hc, h.1]
    rw [firsts, if_neg List.not_mem_nil, firsts_eq_nil hrest]
    rfl

/-- What a module declares under an identifier is the first candidate for it. -/
theorem filter_firsts_eq (id : String) (cs : List Candidate) :
    (firsts [] cs).filter (·.identifier = id) = (cs.find? (·.identifier = id)).toList := by
  have hone : ∀ c ∈ cs.filter (·.identifier = id), c.identifier = id := fun c hc =>
    of_decide_eq_true (List.mem_filter.1 hc).2
  rw [filter_firsts (fun other => decide (other = id)), firsts_of_forall_eq hone,
    List.head?_filter]

/-! ## A sign between two texts -/

section Sign

variable {sign a b a' b' : List Char}

/-- A sign does not overlap itself: it does not begin with what it ends in. -/
def Unbordered (sign : List Char) : Prop :=
  ∀ n < sign.length, 0 < n → ¬sign.drop n <+: sign

instance (sign : List Char) : Decidable (Unbordered sign) :=
  inferInstanceAs (Decidable (∀ n < sign.length, 0 < n → ¬sign.drop n <+: sign))

/-- A sign that does not overlap itself comes after nothing but itself. -/
theorem eq_nil_of_sign (hsign : Unbordered sign) {m : List Char} (hfree : ¬sign <:+: m)
    (heq : sign ++ b = m ++ (sign ++ b')) : m = [] := by
  rcases List.append_eq_append_iff.1 heq with ⟨rest, rfl, -⟩ | ⟨rest, hsplit, hrest⟩
  · exact absurd (List.prefix_append sign rest).isInfix hfree
  · -- The sign is `m` and then the beginning of another one, so one of the two is empty.
    by_contra hm
    have hpos : 0 < m.length := List.length_pos_iff.2 hm
    have hdrop : sign.drop m.length = rest := by rw [hsplit, List.drop_left]
    have hlength : sign.length = m.length + rest.length := by rw [hsplit, List.length_append]
    have hprefix : rest <+: sign := by
      have hwhole : rest <+: sign ++ b' := ⟨b, hrest.symm⟩
      exact List.prefix_of_prefix_length_le hwhole (List.prefix_append sign b') (by omega)
    by_cases hnil : rest = []
    · rw [hnil, List.append_nil] at hsplit
      exact hfree (hsplit ▸ List.infix_rfl)
    · have hback : 0 < rest.length := List.length_pos_iff.2 hnil
      exact hsign m.length (by omega) hpos (hdrop ▸ hprefix)

/-- **What stands before a sign and behind it is told apart**, if the sign does not overlap itself
and does not occur before. -/
theorem append_sign_inj (hsign : Unbordered sign) (ha : ¬sign <:+: a) (ha' : ¬sign <:+: a') :
    a ++ (sign ++ b) = a' ++ (sign ++ b') ↔ a = a' ∧ b = b' := by
  constructor
  · intro heq
    rcases List.append_eq_append_iff.1 heq with ⟨m, rfl, hrest⟩ | ⟨m, rfl, hrest⟩
    · obtain rfl : m = [] :=
        eq_nil_of_sign hsign (fun h => ha' (h.trans (List.suffix_append a m).isInfix)) hrest
      exact ⟨(List.append_nil a).symm, List.append_cancel_left hrest⟩
    · obtain rfl : m = [] :=
        eq_nil_of_sign hsign (fun h => ha (h.trans (List.suffix_append a' m).isInfix)) hrest
      exact ⟨List.append_nil a', (List.append_cancel_left hrest).symm⟩
  · rintro ⟨rfl, rfl⟩
    rfl

end Sign

/-! ## The lenses on two fields -/

/-- The sign that stands between field and owner occurs in the title case of a field. -/
def ContainsFrom (field : String) : Prop := "From".toList <:+: (titleCase field).toList

instance (field : String) : Decidable (ContainsFrom field) :=
  inferInstanceAs (Decidable ("From".toList <:+: (titleCase field).toList))

theorem unbordered_from : Unbordered "From".toList := by decide

theorem toList_identifier (owner field : String) : (identifier owner field).toList
    = "get".toList ++ ((titleCase field).toList ++ ("From".toList ++ (titleCase owner).toList)) := by
  rw [identifier]
  simp only [String.toList_append, List.append_assoc]

/-- **Two lenses meet only if field and owner agree in title case.** -/
theorem identifier_eq_iff {owner field owner' field' : String} (h : ¬ContainsFrom field)
    (h' : ¬ContainsFrom field') : identifier owner field = identifier owner' field' ↔
      titleCase owner = titleCase owner' ∧ titleCase field = titleCase field' := by
  rw [← String.toList_inj, toList_identifier, toList_identifier, List.append_cancel_left_eq,
    append_sign_inj unbordered_from h h', String.toList_inj, String.toList_inj, and_comm]

/-- The lens on the field of a node is among the candidates, unless the node is a root. -/
theorem own_mem_candidates (h : x.kind ≠ .root) : own x ∈ candidates key x :=
  mem_candidates_iff.2 ⟨h, Or.inl rfl⟩

/-- **The lenses on fields of types that differ in title case never displace each other.**  Where
the sign between field and owner occurs in neither field, the identifiers of two lenses are the same
exactly if the owners agree in title case and the fields do.  So if two fields of a tree have owners
that differ in title case, the module makes one declaration under the identifier of the lens on the
one, and the same as it would make without the lens on the other. -/
theorem field_lenses_apart :
    (∀ owner field owner' field' : String, ¬ContainsFrom field → ¬ContainsFrom field' →
      (identifier owner field = identifier owner' field' ↔
        titleCase owner = titleCase owner' ∧ titleCase field = titleCase field')) ∧
    ∀ (a : Arena Node) (key : String),
      a.lenses key = (firsts [] (a.values.flatMap (candidates key))).map Candidate.line ∧
      ∀ x ∈ a.values, x.kind ≠ .root → ∀ y : Node,
        ¬ContainsFrom x.name → ¬ContainsFrom y.name →
        titleCase x.ownerOrName ≠ titleCase y.ownerOrName →
        ∃ c, (firsts [] (a.values.flatMap (candidates key))).filter
              (·.identifier = (own x).identifier) = [c] ∧
          (firsts [] ((a.values.flatMap (candidates key)).filter (· ≠ own y))).filter
              (·.identifier = (own x).identifier) = [c] := by
  refine ⟨fun _ _ _ _ h h' => identifier_eq_iff h h', fun a key => ⟨rfl, ?_⟩⟩
  intro x hx hroot y hfield hfield' howner
  have hne : (own x).identifier ≠ (own y).identifier := by
    intro heq
    exact howner ((identifier_eq_iff hfield hfield').1 heq).1
  have hmem : own x ∈ a.values.flatMap (candidates key) :=
    List.mem_flatMap.2 ⟨x, hx, own_mem_candidates hroot⟩
  generalize a.values.flatMap (candidates key) = all at hmem
  -- The other lens is no candidate for the identifier, so the first one is the same without it.
  have hfind : (all.filter (· ≠ own y)).find? (·.identifier = (own x).identifier)
      = all.find? (·.identifier = (own x).identifier) := by
    rw [List.find?_filter]
    refine List.find?_congr fun c _ => ?_
    by_cases hc : c.identifier = (own x).identifier
    · have hother : c ≠ own y := by
        rintro rfl
        exact hne hc.symm
      simp [hc, hother]
    · simp [hc]
  obtain ⟨c, hc⟩ : ∃ c, all.find? (·.identifier = (own x).identifier) = some c := by
    rw [← Option.isSome_iff_exists, List.find?_isSome]
    exact ⟨own x, hmem, decide_eq_true rfl⟩
  refine ⟨c, ?_, ?_⟩
  · rw [filter_firsts_eq, hc, Option.toList_some]
  · rw [filter_firsts_eq, hfind, hc, Option.toList_some]

/-- A price of an order beside two prices of its items, whose lenses do meet. -/
theorem field_lenses_apart_prices :
    let total : Node := ⟨.terminal, "unitPrice", some "Order", none, none⟩
    let first : Node := ⟨.terminal, "unit_price", some "order_item", none, none⟩
    let second : Node := ⟨.terminal, "unit-price", some "OrderItem", none, none⟩
    let a := Arena.ofTree 0
      (.node (.root "Order") [.node total [], .node first [], .node second []])
    ¬ContainsFrom total.name ∧ ¬ContainsFrom second.name ∧ second ∈ a.values ∧
    titleCase second.ownerOrName ≠ titleCase total.ownerOrName ∧
    identifier "OrderItem" "unit-price" = identifier "order_item" "unit_price" ∧
    ∃ c, (firsts [] (a.values.flatMap (candidates "id"))).filter
        (·.identifier = (own second).identifier) = [c] := by
  intro total first second a
  obtain ⟨hiff, hmodule⟩ := field_lenses_apart
  have htotal : ¬ContainsFrom total.name := by decide +kernel
  have hfirst : ¬ContainsFrom first.name := by decide +kernel
  have hsecond : ¬ContainsFrom second.name := by decide +kernel
  have hmem : second ∈ a.values := by decide +kernel
  have howner : titleCase second.ownerOrName ≠ titleCase total.ownerOrName := by decide +kernel
  obtain ⟨c, hc, -⟩ := (hmodule a "id").2 second hmem (by decide) total hsecond htotal howner
  exact ⟨htotal, hsecond, hmem, howner,
    (hiff _ _ _ _ hsecond hfirst).2 (by decide +kernel), c, hc⟩

/-- With the sign in a field, the lenses on fields of different types can meet. -/
example : titleCase "A" ≠ titleCase "b_from_a" ∧
    identifier "A" "x_from_b" = identifier "b_from_a" "x" := by decide +kernel

end Lens

/-! ## Lower case -/

namespace Text

variable {c d : Char}

theorem isUpper_iff : c.isUpper = true ↔ 'A'.toNat ≤ c.toNat ∧ c.toNat ≤ 'Z'.toNat := by
  rw [Char.isUpper, decide_eq_true_eq, ge_iff_le, UInt32.le_iff_toNat_le, UInt32.le_iff_toNat_le]
  rfl

/-- The table of lower cases leads to codes behind `Z` only. -/
theorem lt_of_findSome?_caseRuns {n code : Nat}
    (h : caseRuns.findSome? (·.lower? n) = some code) : 'Z'.toNat < code := by
  have hfar : ∀ run ∈ caseRuns, 'Z'.toNat < run.target := by decide +kernel
  obtain ⟨run, hrun, hlower⟩ := List.exists_of_findSome?_eq_some h
  have htarget := hfar run hrun
  rw [CaseRun.lower?] at hlower
  split at hlower
  · cases hlower
    omega
  · cases hlower

/-- A character with a lower case has no letter from `A` to `Z` in it. -/
theorem isUpper_of_mem_lowerChar (hd : d ∈ lowerChar c) : d.isUpper = false := by
  by_cases hascii : c.toNat < 128
  · rw [lowerChar_of_ascii hascii, List.mem_singleton] at hd
    rw [hd, Char.isUpper_toLower_eq_false]
  · rw [Bool.eq_false_iff, ne_eq, isUpper_iff]
    have hZ : 'Z'.toNat = 90 := rfl
    have hA : 'A'.toNat = 65 := rfl
    rw [lowerChar] at hd
    split at hd
    · rcases List.mem_cons.1 hd with rfl | hd
      · decide
      · rw [List.mem_singleton.1 hd]
        decide
    · cases hrun : caseRuns.findSome? (·.lower? c.toNat) with
      | none =>
        rw [hrun, List.mem_singleton] at hd
        subst hd
        omega
      | some code =>
        have hcode := lt_of_findSome?_caseRuns hrun
        rw [hrun, List.mem_singleton] at hd
        subst hd
        -- A code that is no character is read as that of the zero.
        have hnat := Char.toNat_ofNat code
        split at hnat <;> omega

/-- **A text in lower case has no letters from `A` to `Z`.** -/
theorem isUpper_of_mem_lower {s : String} (hc : c ∈ (lower s).toList) : c.isUpper = false := by
  rw [lower, String.toList_ofList, lowerChars] at hc
  generalize s.toList = cs, ([] : List Char) = before at hc
  induction cs generalizing before with
  | nil => cases hc
  | cons d rest ih =>
    rw [lowerAfter, List.mem_append] at hc
    rcases hc with hc | hc
    · split at hc
      · split at hc <;> (rw [List.mem_singleton.1 hc]; decide)
      · exact isUpper_of_mem_lowerChar hc
    · exact ih (d :: before) hc

end Text

/-! ## Lenses and traversals -/

namespace Lens

variable {c : Candidate} {key element : String} {x : Node}

/-- The traversal of an array is called by no name with an `F` in it. -/
theorem notMem_traversalIdentifier (element : String) :
    'F' ∉ (traversalIdentifier element).toList := by
  rw [traversalIdentifier, String.toList_append, List.mem_append, not_or]
  refine ⟨fun h => ?_, by decide⟩
  exact Bool.false_ne_true (Text.isUpper_of_mem_lower h).symm

/-- Every lens is called by a name with an `F` in it, that of the sign behind the field. -/
theorem mem_identifier (owner field : String) : 'F' ∈ (identifier owner field).toList := by
  rw [toList_identifier]
  refine List.mem_append_right _ (List.mem_append_right _ (List.mem_append_left _ ?_))
  decide

/-- **No traversal has the identifier of a lens.** -/
theorem traversalIdentifier_ne (element owner field : String) :
    traversalIdentifier element ≠ identifier owner field := by
  intro heq
  exact notMem_traversalIdentifier element (heq ▸ mem_identifier owner field)

theorem traversalIdentifier_inj {element' : String} :
    traversalIdentifier element = traversalIdentifier element' ↔
      Text.lower element = Text.lower element' := by
  rw [traversalIdentifier, traversalIdentifier, ← String.toList_inj, String.toList_append,
    String.toList_append, List.append_cancel_right_eq, String.toList_inj]

/-- The traversal that a node gives rise to, if it is an array with a target. -/
def traversals (x : Node) : List Candidate :=
  match x.kind, x.target with
  | .array, some element => [⟨traversalIdentifier element, traversal element⟩]
  | _, _ => []

/-- What a node gives rise to without its traversal: the lens on its field, and the lens into a
record with a target. -/
def lensesOf (key : String) (x : Node) : List Candidate :=
  match x.kind, x.target with
  | .root, _ => []
  | .record, some value => [own x, ⟨identifier value x.name, record value x.name key⟩]
  | _, _ => [own x]

theorem candidates_eq_append (key : String) (x : Node) :
    candidates key x = lensesOf key x ++ traversals x := by
  obtain ⟨kind, name, owner, declaration, target⟩ := x
  cases kind <;> cases target <;> rfl

theorem mem_traversals_iff : c ∈ traversals x ↔ x.kind = .array ∧
    ∃ element, x.target = some element ∧
      c = ⟨traversalIdentifier element, traversal element⟩ := by
  obtain ⟨kind, name, owner, declaration, target⟩ := x
  cases kind <;> cases target <;> simp [traversals]

/-- What a node gives rise to without its traversal are lenses. -/
theorem mem_of_mem_lensesOf (h : c ∈ lensesOf key x) : 'F' ∈ c.identifier.toList := by
  have hc : c ∈ candidates key x := by
    rw [candidates_eq_append]
    exact List.mem_append_left _ h
  rcases (mem_candidates_iff.1 hc).2 with rfl | ⟨hkind, -⟩ | ⟨-, value, -, rfl⟩
  · exact mem_identifier _ _
  · rw [lensesOf, hkind, List.mem_singleton] at h
    subst h
    exact mem_identifier _ _
  · exact mem_identifier _ _

theorem notMem_of_mem_traversals (h : c ∈ traversals x) : 'F' ∉ c.identifier.toList := by
  obtain ⟨-, element, -, rfl⟩ := mem_traversals_iff.1 h
  exact notMem_traversalIdentifier element

/-- The candidates whose identifiers have an `F` are those that are no traversals. -/
theorem filter_candidates (key : String) (nodes : List Node) :
    (nodes.flatMap (candidates key)).filter (fun c => decide ('F' ∈ c.identifier.toList))
      = nodes.flatMap (lensesOf key) := by
  rw [List.filter_flatMap]
  refine List.flatMap_congr fun x _ => ?_
  have hlenses : (lensesOf key x).filter (fun c => decide ('F' ∈ c.identifier.toList))
      = lensesOf key x :=
    List.filter_eq_self.2 fun c hc => decide_eq_true (mem_of_mem_lensesOf hc)
  have htraversals : (traversals x).filter (fun c => decide ('F' ∈ c.identifier.toList)) = [] :=
    List.filter_eq_nil_iff.2 fun c hc h => notMem_of_mem_traversals hc (of_decide_eq_true h)
  rw [candidates_eq_append, List.filter_append, hlenses, htraversals, List.append_nil]

theorem notMem_traversals_iff {nodes : List Node} (hc : c ∈ nodes.flatMap (candidates key)) :
    c ∉ nodes.flatMap traversals ↔ 'F' ∈ c.identifier.toList := by
  constructor
  · intro hnone
    obtain ⟨x, hx, hmem⟩ := List.mem_flatMap.1 hc
    rw [candidates_eq_append, List.mem_append] at hmem
    rcases hmem with hmem | hmem
    · exact mem_of_mem_lensesOf hmem
    · exact absurd (List.mem_flatMap.2 ⟨x, hx, hmem⟩) hnone
  · intro hF hmem
    obtain ⟨x, -, hmem⟩ := List.mem_flatMap.1 hmem
    exact notMem_of_mem_traversals hmem hF

/-- Of the candidates of a node, only the traversal can have the identifier of a traversal. -/
theorem find?_candidates_eq_some : (candidates key x).find?
      (·.identifier = traversalIdentifier element) = some c ↔
    x.kind = .array ∧ ∃ first, x.target = some first ∧ Text.lower first = Text.lower element ∧
      c = ⟨traversalIdentifier element, traversal first⟩ := by
  have hlenses : (lensesOf key x).find? (·.identifier = traversalIdentifier element) = none := by
    refine List.find?_eq_none.2 fun c hc h => notMem_traversalIdentifier element ?_
    rw [← of_decide_eq_true h]
    exact mem_of_mem_lensesOf hc
  rw [candidates_eq_append, List.find?_append, hlenses, Option.none_or]
  obtain ⟨kind, name, owner, declaration, target⟩ := x
  cases kind with
  | array =>
    cases target with
    | none => simp [traversals]
    | some first =>
      by_cases hlower : Text.lower first = Text.lower element
      · rw [← traversalIdentifier_inj] at hlower
        simp [traversals, hlower, traversalIdentifier_inj.1 hlower, eq_comm]
      · simp [traversals, traversalIdentifier_inj, hlower]
  | _ => simp [traversals]

/-- **Traversals and lenses never displace each other.**  No traversal has the identifier of a lens.
So the module declares the traversal of the elements of every array, once, under the lower case of
their type: it is the one for the first array in pre-order whose elements have a type of the same
lower case.  And the rest of the module is what it is without any traversals. -/
theorem traversals_apart (a : Arena Node) (key : String) :
    let nodes := a.tree.preorder.map Prod.snd
    a.lenses key = (kept key nodes).map Candidate.line ∧
    (∀ c ∈ kept key nodes, c.Declares) ∧
    (∀ element owner field, traversalIdentifier element ≠ identifier owner field) ∧
    (∀ x ∈ nodes, x.kind = .array → ∀ element, x.target = some element →
      ∃ before y after first, nodes = before ++ y :: after ∧
        y.kind = .array ∧ y.target = some first ∧ Text.lower first = Text.lower element ∧
        (∀ z ∈ before, z.kind = .array → ∀ other, z.target = some other →
          Text.lower other ≠ Text.lower element) ∧
        (kept key nodes).filter (·.identifier = Text.lower element ++ "Traversal")
          = [⟨Text.lower element ++ "Traversal", traversal first⟩]) ∧
    (kept key nodes).filter (· ∉ nodes.flatMap traversals)
      = firsts [] (nodes.flatMap (lensesOf key)) := by
  intro nodes
  refine ⟨?_, fun c hc => declares_of_mem_kept hc, traversalIdentifier_ne, ?_, ?_⟩
  · have hvalues : a.values = nodes := Arena.values_eq a
    rw [← hvalues, ← declarations_eq]
    rfl
  · intro x hx hkind element htarget
    have hmine : (candidates key x).find? (·.identifier = traversalIdentifier element)
        = some ⟨traversalIdentifier element, traversal element⟩ :=
      find?_candidates_eq_some.2 ⟨hkind, element, htarget, rfl, rfl⟩
    obtain ⟨c, hc⟩ : ∃ c, nodes.findSome?
        (fun x => (candidates key x).find? (·.identifier = traversalIdentifier element)) = some c := by
      rw [← Option.isSome_iff_exists, List.findSome?_isSome_iff]
      exact ⟨x, hx, by rw [hmine]; rfl⟩
    have hfirst : (nodes.flatMap (candidates key)).find?
        (·.identifier = traversalIdentifier element) = some c := by
      rw [List.find?_flatMap, hc]
    obtain ⟨before, y, after, hsplit, hy, hbefore⟩ := List.findSome?_eq_some_iff.1 hc
    obtain ⟨hykind, first, hytarget, hlower, rfl⟩ := find?_candidates_eq_some.1 hy
    refine ⟨before, y, after, first, hsplit, hykind, hytarget, hlower, ?_, ?_⟩
    · intro z hz hzkind other hztarget hsame
      have hfound : (candidates key z).find? (·.identifier = traversalIdentifier element)
          = some ⟨traversalIdentifier element, traversal other⟩ :=
        find?_candidates_eq_some.2 ⟨hzkind, other, hztarget, hsame, rfl⟩
      rw [hbefore z hz] at hfound
      cases hfound
    · show (kept key nodes).filter (·.identifier = traversalIdentifier element) = _
      rw [kept, filter_firsts_eq, hfirst, Option.toList_some]
      rfl
  · have hkept : ∀ c ∈ kept key nodes, decide (c ∉ nodes.flatMap traversals)
        = decide ('F' ∈ c.identifier.toList) := fun c hc =>
      decide_eq_decide.2 (notMem_traversals_iff (of_mem_firsts hc).1)
    rw [List.filter_congr hkept, kept, filter_firsts (fun id => decide ('F' ∈ id.toList)),
      filter_candidates]

/-- Two arrays whose element types differ but for the case of letters: one is written with the sign
for kelvin. -/
theorem traversals_apart_kelvin :
    let kinds : Node := ⟨.array, "kinds", some "Shop", none, some "Kind"⟩
    let others : Node := ⟨.array, "others", some "Shop", none, some "\u212aind"⟩
    let users : Node := ⟨.record, "users", some "Shop", none, some "User"⟩
    let a := Arena.ofTree 0
      (.node (.root "Shop") [.node kinds [], .node users [], .node others []])
    let nodes := a.tree.preorder.map Prod.snd
    others ∈ nodes ∧ others.kind = .array ∧ others.target = some "\u212aind" ∧
    (∃ first, Text.lower first = "kind" ∧ (kept "id" nodes).filter (·.identifier = "kindTraversal")
      = [⟨"kindTraversal", traversal first⟩]) ∧
    a.lenses "id" = [field "Shop" "kinds", traversal "Kind", field "Shop" "users",
      record "User" "users" "id", field "Shop" "others"] ∧
    own users ∈ kept "id" nodes ∧ (own users).Declares := by
  intro kinds others users a nodes
  obtain ⟨-, hdeclares, -, hfirst, -⟩ := traversals_apart a "id"
  have hmem : others ∈ nodes := by decide +kernel
  have hlower : Text.lower "\u212aind" = "kind" := by decide +kernel
  have husers : own users ∈ kept "id" nodes := by decide +kernel
  obtain ⟨-, -, -, first, -, -, -, hsame, -, hdeclared⟩ := hfirst others hmem rfl _ rfl
  rw [hlower] at hsame hdeclared
  exact ⟨hmem, rfl, rfl, ⟨first, hsame, hdeclared⟩, by decide +kernel, husers,
    hdeclares _ husers⟩

end Lens

end FieldTree
