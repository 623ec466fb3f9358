/-
# The order in which structs are found

`Schema.expand` flattens a name without remembering what has been seen: a union is the row of its
variants, and only a name that is being expanded already gives nothing.  The search of
`Schema.symbols` passes over every name that it has followed.  What it passes over is either being
followed, and then the flattening prunes it too, or it has been followed to its end, and then all
that it leads to without coming back to a name that is being followed has been found.  So the
search finds the structs of the flattening in the same order, each where it comes first.

* `Schema.Closed` : the variants of a union that has been followed to its end have been followed;
* `Schema.mem_of_mem_expand` : a name that is passed over gives nothing that has not been found;
* `Schema.Follows.eraseDups_expand` : a call of the search finds what is new in the flattening;
* `Schema.symbols_eq_expand` : the symbols of a name are its flattening without repetitions.
-/
import FieldTree.Proofs.Coverage

namespace FieldTree.Schema

variable {s : Schema} {path seen : List String} {name symbol : String}

/-! ## The flattening of a name -/

/-- The structs that a name is flattened into, below the names that are being expanded: a struct
is itself, a union the row of what its variants are flattened into, and neither a name that is not
defined nor one that is being expanded already gives anything. -/
def expand (s : Schema) (path : List String) (name : String) : List String :=
  if _hs : name ∈ path then []
  else
    match _hd : s.definition? name with
    | none => []
    | some (.struct _) => [name]
    | some (.union variants) => variants.flatMap fun variant => s.expand (name :: path) variant
termination_by (s.unseen path).length
decreasing_by exact unseen_cons_length _hd _hs

theorem expand_of_mem (h : name ∈ path) : s.expand path name = [] := by
  rw [expand, dif_pos h]

theorem expand_of_undefined (hd : s.definition? name = none) : s.expand path name = [] := by
  rw [expand]
  split
  · rfl
  · split <;> simp_all

theorem expand_of_struct {members : List Member} (h : name ∉ path)
    (hd : s.definition? name = some (.struct members)) : s.expand path name = [name] := by
  rw [expand, dif_neg h]
  split <;> simp_all

theorem expand_of_union {variants : List String} (h : name ∉ path)
    (hd : s.definition? name = some (.union variants)) :
    s.expand path name = variants.flatMap (s.expand (name :: path)) := by
  rw [expand, dif_neg h]
  split <;> simp_all

/-- A name is flattened into structs only. -/
theorem isStruct_of_mem_expand (h : symbol ∈ s.expand path name) : s.IsStruct symbol := by
  fun_induction s.expand path name with
  | case1 path name hs => cases h
  | case2 path name hs hd => cases h
  | case3 path name hs members hd =>
    rw [List.mem_singleton.1 h]
    exact ⟨members, hd⟩
  | case4 path name hs variants hd ih =>
    obtain ⟨variant, -, hmem⟩ := List.mem_flatMap.1 h
    exact ih variant hmem

/-! ## Names that have been followed to their end -/

/-- Among the names that have been followed, the variants of each union have been followed too,
unless the union is still being followed. -/
def Closed (s : Schema) (seen path : List String) : Prop :=
  ∀ name ∈ seen, name ∉ path → ∀ variant, s.Refers name variant → variant ∈ seen

theorem closed_nil (s : Schema) (path : List String) : s.Closed [] path := by
  intro name hname
  cases hname

/-- What is closed stays so while a further name is being followed. -/
theorem Closed.cons (h : s.Closed seen path) (name : String) :
    s.Closed (name :: seen) (name :: path) := by
  intro other hother hpath variant hrefers
  rw [List.mem_cons, not_or] at hpath
  have hseen : other ∈ seen := List.mem_of_ne_of_mem hpath.1 hother
  exact List.mem_cons_of_mem name (h other hseen hpath.2 variant hrefers)

/-- A name has been followed to its end when its variants have been followed. -/
theorem Closed.of_cons (h : s.Closed seen (name :: path))
    (hvariants : ∀ variant, s.Refers name variant → variant ∈ seen) : s.Closed seen path := by
  intro other hother hpath variant hrefers
  by_cases hname : other = name
  · exact hvariants variant (hname ▸ hrefers)
  · exact h other hother (by simp [hname, hpath]) variant hrefers

/-- **A name that has been followed gives nothing new**: on no way from it, but through names that
are being followed, does a name come that has not been followed. -/
theorem mem_of_mem_expand (hclosed : s.Closed seen path) (hname : name ∈ seen)
    (h : symbol ∈ s.expand path name) : symbol ∈ seen := by
  fun_induction s.expand path name with
  | case1 path name hs => cases h
  | case2 path name hs hd => cases h
  | case3 path name hs members hd =>
    rw [List.mem_singleton.1 h]
    exact hname
  | case4 path name hs variants hd ih =>
    obtain ⟨variant, hvariant, hmem⟩ := List.mem_flatMap.1 h
    have hseen : variant ∈ seen := hclosed name hname hs variant ⟨variants, hd, hvariant⟩
    -- A longer path leaves fewer names that have to be closed.
    refine ih variant ?_ hseen hmem
    intro other hother hpath
    exact hclosed other hother fun hmem => hpath (List.mem_cons_of_mem name hmem)

/-! ## What a call of the search changes -/

theorem not_isStruct_of_undefined (hd : s.definition? name = none) : ¬ s.IsStruct name := by
  rintro ⟨members, hstruct⟩
  rw [hd] at hstruct
  cases hstruct

theorem not_isStruct_of_union {variants : List String}
    (hd : s.definition? name = some (.union variants)) : ¬ s.IsStruct name := by
  rintro ⟨members, hstruct⟩
  rw [hd] at hstruct
  cases hstruct

mutual

/-- A call of the search keeps the names that have been followed, and follows its own. -/
theorem Follows.grows {seen found after : List String} {name : String}
    (h : s.Follows seen name found after) : seen ⊆ after ∧ name ∈ after := by
  match h with
  | .again hs => exact ⟨List.Subset.refl seen, hs⟩
  | .undefined _ _ => exact ⟨List.subset_cons_self name seen, List.mem_cons_self⟩
  | .struct _ _ => exact ⟨List.subset_cons_self name seen, List.mem_cons_self⟩
  | .union _ _ hall =>
    have hsub : name :: seen ⊆ after := hall.grows.1
    exact ⟨List.Subset.trans (List.subset_cons_self name seen) hsub, hsub List.mem_cons_self⟩

theorem FollowsAll.grows {seen names found after : List String}
    (h : s.FollowsAll seen names found after) :
    seen ⊆ after ∧ names ⊆ after := by
  match h with
  | .nil => exact ⟨List.Subset.refl seen, List.nil_subset seen⟩
  | .cons hone hall =>
    obtain ⟨hseen, hname⟩ := hone.grows
    obtain ⟨hbetween, hnames⟩ := hall.grows
    exact ⟨List.Subset.trans hseen hbetween, List.cons_subset.2 ⟨hbetween hname, hnames⟩⟩

end

mutual

/-- The structs that a call finds are those that it follows first. -/
theorem Follows.mem_found_iff {seen found after : List String} {name : String}
    (h : s.Follows seen name found after) (hstruct : s.IsStruct symbol) :
    symbol ∈ found ↔ symbol ∈ after ∧ symbol ∉ seen := by
  match h with
  | .again _ => simp
  | .undefined _ hd =>
    have hne : symbol ≠ name := by
      rintro rfl
      exact not_isStruct_of_undefined hd hstruct
    simp [hne]
  | .struct hs _ =>
    rw [List.mem_singleton, List.mem_cons]
    constructor
    · rintro rfl
      exact ⟨Or.inl rfl, hs⟩
    · rintro ⟨heq | hmem, hnot⟩
      · exact heq
      · exact absurd hmem hnot
  | .union hs hd hall =>
    have hne : symbol ≠ name := by
      rintro rfl
      exact not_isStruct_of_union hd hstruct
    rw [hall.mem_found_iff hstruct, List.mem_cons, not_or]
    exact and_congr_right fun _ => and_iff_right hne

theorem FollowsAll.mem_found_iff {seen names found after : List String}
    (h : s.FollowsAll seen names found after) (hstruct : s.IsStruct symbol) :
    symbol ∈ found ↔ symbol ∈ after ∧ symbol ∉ seen := by
  match h with
  | .nil => simp
  | @FollowsAll.cons _ _ between _ _ _ _ _ hone hall =>
    rw [List.mem_append, hone.mem_found_iff hstruct, hall.mem_found_iff hstruct]
    have hfirst : symbol ∈ seen → symbol ∈ between := fun hmem => hone.grows.1 hmem
    have hrest : symbol ∈ between → symbol ∈ after := fun hmem => hall.grows.1 hmem
    tauto

end

mutual

/-- A call that ends leaves no union half followed but those that were so before. -/
theorem Follows.closed {seen path found after : List String} {name : String}
    (h : s.Follows seen name found after) (hclosed : s.Closed seen path) :
    s.Closed after path := by
  match h with
  | .again _ => exact hclosed
  | .undefined _ hd =>
    refine (hclosed.cons name).of_cons ?_
    rintro variant ⟨variants, hunion, -⟩
    rw [hd] at hunion
    cases hunion
  | .struct _ hd =>
    exact (hclosed.cons name).of_cons fun variant hrefers =>
      absurd hrefers (IsStruct.not_refers ⟨_, hd⟩ variant)
  | .union _ hd hall =>
    refine (hall.closed (hclosed.cons name)).of_cons ?_
    rintro variant ⟨variants, hunion, hvariant⟩
    rw [hd, Option.some.injEq, Definition.union.injEq] at hunion
    exact hall.grows.2 (hunion ▸ hvariant)

theorem FollowsAll.closed {seen path names found after : List String}
    (h : s.FollowsAll seen names found after) (hclosed : s.Closed seen path) : s.Closed after path := by
  match h with
  | .nil => exact hclosed
  | .cons hone hall => exact hall.closed (hone.closed hclosed)

end

/-! ## What a call of the search finds -/

/-- What of some structs is new after the names that have been followed. -/
def fresh (seen structs : List String) : List String :=
  structs.filter fun symbol => decide (symbol ∉ seen)

theorem mem_fresh {structs : List String} :
    symbol ∈ fresh seen structs ↔ symbol ∈ structs ∧ symbol ∉ seen := by
  rw [fresh, List.mem_filter, decide_eq_true_iff]

/-- A name that is being followed itself is not what is new. -/
theorem fresh_cons_of_not_isStruct {structs : List String} (hname : ¬ s.IsStruct name)
    (hstructs : ∀ symbol ∈ structs, s.IsStruct symbol) :
    fresh (name :: seen) structs = fresh seen structs := by
  apply List.filter_congr
  intro symbol hsymbol
  have hne : symbol ≠ name := by
    rintro rfl
    exact hname (hstructs symbol hsymbol)
  simp [hne]

mutual

/-- **A call of the search finds what is new in the flattening of its name**, each struct where it
comes first. -/
theorem Follows.eraseDups_expand {seen path found after : List String} {name : String}
    (h : s.Follows seen name found after) (hclosed : s.Closed seen path) (hpath : path ⊆ seen) :
    (fresh seen (s.expand path name)).eraseDups = found := by
  match h with
  | .again hs =>
    have hnone : fresh seen (s.expand path name) = [] := by
      rw [List.eq_nil_iff_forall_not_mem]
      intro symbol hmem
      rw [mem_fresh] at hmem
      exact hmem.2 (mem_of_mem_expand hclosed hs hmem.1)
    rw [hnone]
    rfl
  | .undefined _ hd =>
    rw [expand_of_undefined hd]
    rfl
  | .struct hs hd =>
    rw [expand_of_struct (fun hmem => hs (hpath hmem)) hd, fresh, List.filter_cons,
      if_pos (by simpa using hs)]
    rfl
  | .union hs hd hall =>
    rw [expand_of_union (fun hmem => hs (hpath hmem)) hd,
      ← hall.eraseDups_expand (hclosed.cons name) (List.cons_subset_cons name hpath)]
    congr 1
    refine (fresh_cons_of_not_isStruct (not_isStruct_of_union hd) ?_).symm
    intro symbol hsymbol
    obtain ⟨variant, -, hmem⟩ := List.mem_flatMap.1 hsymbol
    exact isStruct_of_mem_expand hmem

theorem FollowsAll.eraseDups_expand {seen path names found after : List String}
    (h : s.FollowsAll seen names found after) (hclosed : s.Closed seen path) (hpath : path ⊆ seen) :
    (fresh seen (names.flatMap (s.expand path))).eraseDups = found := by
  match h with
  | .nil => rfl
  | @FollowsAll.cons _ _ between _ names found more name hone hall =>
    have hfirst := hone.eraseDups_expand hclosed hpath
    have hrest := hall.eraseDups_expand (hone.closed hclosed)
      (List.Subset.trans hpath hone.grows.1)
    -- In the rest of the row the new structs are those that the first call has not found.
    have hsame : (fresh seen (names.flatMap (s.expand path))).removeAll
        (fresh seen (s.expand path name)) = fresh between (names.flatMap (s.expand path)) := by
      show List.filter _ (List.filter _ _) = List.filter _ _
      rw [List.filter_filter]
      apply List.filter_congr
      intro symbol hsymbol
      obtain ⟨variant, -, hmem⟩ := List.mem_flatMap.1 hsymbol
      have hfound := hone.mem_found_iff (isStruct_of_mem_expand hmem)
      rw [← hfirst, List.mem_eraseDups] at hfound
      have hgrows : symbol ∈ seen → symbol ∈ between := fun hmem => hone.grows.1 hmem
      rw [Bool.eq_iff_iff]
      simp only [Bool.and_eq_true, Bool.not_eq_true', List.elem_eq_mem, decide_eq_false_iff_not,
        decide_eq_true_iff, hfound]
      tauto
    rw [List.flatMap_cons, fresh, List.filter_append, ← fresh, ← fresh, List.eraseDups_append,
      hsame, hfirst, hrest]

end

/-! ## Symbols -/

theorem head?_eraseDups (structs : List String) : structs.eraseDups.head? = structs.head? := by
  cases structs with
  | nil => rfl
  | cons symbol rest => rw [List.eraseDups_cons]; rfl

/-- **The symbols of a name are its flattening without repetitions.**  They are the structs that
the expansion of the name gives when nothing is remembered but the names that are being expanded,
in the same order, each where it comes first.  So the first symbol is the first struct of the
expansion, and it is the one whose properties stand below a node of the type. -/
theorem symbols_eq_expand (s : Schema) (name : String) :
    s.symbols name = (s.expand [] name).eraseDups ∧
    (s.symbols name).head? = (s.expand [] name).head? ∧
    ∀ (handlers : List Handler) (maxDepth : Option Nat) (x : Node), x.target = some name →
      (Decomposition.ofSchema s handlers maxDepth).offspring x
        = match (s.expand [] name).head? with
          | none => []
          | some symbol => (Member.properties ((s.members? symbol).getD [])).map
              ((Decomposition.ofSchema s handlers maxDepth).child x symbol) := by
  obtain ⟨after, hfollows⟩ := follows_symbols s name
  have hsymbols : s.symbols name = (s.expand [] name).eraseDups := by
    have hclosed : s.Closed [] [] := closed_nil s []
    rw [← hfollows.eraseDups_expand hclosed (List.Subset.refl []), fresh,
      List.filter_eq_self.2 (by simp)]
  have hhead : (s.symbols name).head? = (s.expand [] name).head? := by
    rw [hsymbols, head?_eraseDups]
  refine ⟨hsymbols, hhead, ?_⟩
  intro handlers maxDepth x htarget
  have hx : x.symbols s.introspection = s.symbols name := by rw [Node.symbols, htarget]; rfl
  rw [← hhead]
  cases hlist : s.symbols name with
  | nil => exact Decomposition.offspring_of_no_struct (hx.trans hlist)
  | cons symbol rest =>
    obtain ⟨members, hd⟩ := (mem_symbols_iff.1 (hlist ▸ List.mem_cons_self)).1
    rw [Decomposition.offspring_of_struct (hx.trans hlist) hd]
    show _ = (Member.properties ((s.members? symbol).getD [])).map _
    rw [members?_eq_some.2 hd]
    rfl

/-- In a circle of unions the one struct comes twice in the expansion, and is found once. -/
theorem symbols_eq_expand_circular :
    circular.expand [] "Left" = ["Leaf", "Leaf"] ∧ circular.symbols "Left" = ["Leaf"] ∧
      (Node.root "Left").target = some "Left" ∧
      (Decomposition.ofSchema circular Handler.defaults none).offspring (.root "Left") = [] := by
  have hleft : circular.definition? "Left" = some (.union ["Right", "Missing", "Right"]) := by
    decide +kernel
  have hright : circular.definition? "Right" = some (.union ["Right", "Left", "Leaf"]) := by
    decide +kernel
  have hleaf : circular.definition? "Leaf" = some (.struct []) := by decide +kernel
  have hmissing : circular.definition? "Missing" = none := by decide +kernel
  have hbelow : circular.expand ["Left"] "Right" = ["Leaf"] := by
    rw [expand_of_union (by decide) hright, List.flatMap_cons, List.flatMap_cons,
      List.flatMap_singleton, expand_of_mem (by decide), expand_of_mem (by decide),
      expand_of_struct (by decide) hleaf]
    rfl
  have hexpand : circular.expand [] "Left" = ["Leaf", "Leaf"] := by
    rw [expand_of_union (by decide) hleft, List.flatMap_cons, List.flatMap_cons,
      List.flatMap_singleton, expand_of_undefined hmissing, hbelow]
    rfl
  obtain ⟨hsymbols, -, hoffspring⟩ := symbols_eq_expand circular "Left"
  rw [hexpand] at hsymbols hoffspring
  have hfirst := hoffspring Handler.defaults none (.root "Left") rfl
  refine ⟨hexpand, hsymbols.trans rfl, rfl, hfirst.trans ?_⟩
  show (Member.properties ((circular.members? "Leaf").getD [])).map _ = []
  rw [members?_eq_some.2 hleaf]
  rfl

end FieldTree.Schema
