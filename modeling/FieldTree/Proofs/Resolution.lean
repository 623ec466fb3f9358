/-
# What a name stands for

The structs that a name stands for are found by a search through unions that follows no name
twice.  `Schema.Refers` is the graph that is searched, from each union to its variants, and
`Schema.Follows` the search itself, call by call: a call for each variant, one after the other,
each with the names that were followed before it.

* `Schema.exists_follows`, `Schema.Follows.reach_eq` : every call of the search ends, and
  `Schema.reach` collects what the calls find;
* `Schema.nodup_reach` : nothing is found twice;
* `Schema.mem_reach_of_leads` : a name that was followed before hides nothing that it leads to;
* `Schema.symbols_resolution` : a name stands for the structs that it leads to.
-/
import FieldTree.Schema.Symbols
import Mathlib.Data.List.Nodup
import Mathlib.Logic.Relation

namespace FieldTree.Schema

variable {s : Schema}

/-! ## The graph of unions -/

/-- A union refers to each of its variants. -/
def Refers (s : Schema) (name variant : String) : Prop :=
  ∃ variants, s.definition? name = some (.union variants) ∧ variant ∈ variants

/-- A name leads to those that are reached from it through unions, in any number of steps. -/
abbrev Leads (s : Schema) (name other : String) : Prop := Relation.ReflTransGen s.Refers name other

/-- Whether a name is that of a struct. -/
def IsStruct (s : Schema) (name : String) : Prop :=
  ∃ members, s.definition? name = some (.struct members)

theorem isStruct_iff_members? {name : String} :
    s.IsStruct name ↔ (s.members? name).isSome = true := by
  rw [Option.isSome_iff_exists]
  exact exists_congr fun members => members?_eq_some.symm

theorem mem_structs_iff {name : String} : name ∈ s.structs ↔ s.IsStruct name := by
  rw [structs, List.mem_filter, ← isStruct_iff_members?]
  constructor
  · exact fun h => h.2
  · rintro ⟨members, hd⟩
    exact ⟨mem_names_of_definition? hd, members, hd⟩

/-- A struct refers to nothing. -/
theorem IsStruct.not_refers {name : String} (h : s.IsStruct name) (other : String) :
    ¬ s.Refers name other := by
  rintro ⟨variants, hunion, -⟩
  obtain ⟨members, hstruct⟩ := h
  rw [hstruct] at hunion
  cases hunion

/-- A struct leads to itself alone. -/
theorem IsStruct.eq_of_leads {name other : String} (h : s.IsStruct name) (hl : s.Leads name other) :
    other = name := by
  rcases hl.cases_head with heq | ⟨variant, hrefers, -⟩
  · exact heq.symm
  · exact absurd hrefers (h.not_refers variant)

/-! ## The search, call by call -/

mutual

/-- A call of the search follows a name, after the names in the first list: it finds the structs
in the second list, and the names in the last list have been followed when it ends. -/
inductive Follows (s : Schema) : List String → String → List String → List String → Prop where
  | again {seen : List String} {name : String} :
      name ∈ seen → Follows s seen name [] seen
  | undefined {seen : List String} {name : String} :
      name ∉ seen → s.definition? name = none → Follows s seen name [] (name :: seen)
  | struct {seen : List String} {name : String} {members : List Member} :
      name ∉ seen → s.definition? name = some (.struct members) →
      Follows s seen name [name] (name :: seen)
  | union {seen : List String} {name : String} {variants found after : List String} :
      name ∉ seen → s.definition? name = some (.union variants) →
      FollowsAll s (name :: seen) variants found after → Follows s seen name found after

/-- Calls of the search one after another, each with the names followed before it. -/
inductive FollowsAll (s : Schema) :
    List String → List String → List String → List String → Prop where
  | nil {seen : List String} : FollowsAll s seen [] [] seen
  | cons {seen between after names found more : List String} {name : String} :
      Follows s seen name found between → FollowsAll s between names more after →
      FollowsAll s seen (name :: names) (found ++ more) after

end

/-- What is found depends only on which of the defined names have been followed. -/
theorem reach_congr {seen seen' pending : List String}
    (h : ∀ name, s.definition? name ≠ none → (name ∈ seen ↔ name ∈ seen')) :
    s.reach seen pending = s.reach seen' pending := by
  fun_induction s.reach seen pending generalizing seen' with
  | case1 => rw [reach_nil]
  | case2 seen name pending hs ih =>
    by_cases hd : s.definition? name = none
    · rw [reach_of_undefined hd, ih h]
    · rw [reach_of_mem ((h name hd).1 hs), ih h]
  | case3 seen name pending hs hd ih => rw [reach_of_undefined hd, ih h]
  | case4 seen name pending hs members hd ih =>
    have hs' : name ∉ seen' := by rwa [← h name (by simp [hd])]
    rw [reach_of_struct hs' hd, ih]
    intro other ho
    rw [List.mem_cons, List.mem_cons, h other ho]
  | case5 seen name pending hs variants hd ih =>
    have hs' : name ∉ seen' := by rwa [← h name (by simp [hd])]
    rw [reach_of_union hs' hd, ih]
    intro other ho
    rw [List.mem_cons, List.mem_cons, h other ho]

/-- A name that is not defined may count as followed. -/
theorem reach_cons_of_undefined {seen pending : List String} {name : String}
    (hd : s.definition? name = none) :
    s.reach (name :: seen) pending = s.reach seen pending := by
  apply reach_congr
  intro other ho
  rw [List.mem_cons]
  constructor
  · rintro (rfl | hmem)
    · exact absurd hd ho
    · exact hmem
  · exact Or.inr

mutual

/-- What a call finds comes before what the pending names lead to. -/
theorem Follows.reach_eq {seen found after : List String} {name : String}
    (h : s.Follows seen name found after) (pending : List String) :
    s.reach seen (name :: pending) = found ++ s.reach after pending := by
  match h with
  | .again hs => rw [reach_of_mem hs, List.nil_append]
  | .undefined _ hd => rw [reach_of_undefined hd, reach_cons_of_undefined hd, List.nil_append]
  | .struct hs hd => rw [reach_of_struct hs hd, List.singleton_append]
  | .union hs hd hall => rw [reach_of_union hs hd, hall.reach_eq pending]

theorem FollowsAll.reach_eq {seen names found after : List String}
    (h : s.FollowsAll seen names found after) (pending : List String) :
    s.reach seen (names ++ pending) = found ++ s.reach after pending := by
  match h with
  | .nil => rfl
  | .cons hone hall =>
    rw [List.cons_append, hone.reach_eq, hall.reach_eq pending, List.append_assoc]

end

/-- With more names followed, fewer are left. -/
theorem length_unseen_le {seen seen' : List String} (h : seen ⊆ seen') :
    (s.unseen seen').length ≤ (s.unseen seen).length := by
  apply List.Sublist.length_le
  apply List.monotone_filter_right
  intro name hname
  simp only [Bool.not_eq_true', List.contains_eq_mem, decide_eq_false_iff_not] at hname ⊢
  exact fun hmem => hname (h hmem)

/-- Calls one after another end if each of them does, from any point of the search on. -/
theorem exists_followsAll (seen names : List String)
    (hone : ∀ seen' name, seen ⊆ seen' → ∃ found after, s.Follows seen' name found after ∧
      seen' ⊆ after) :
    ∃ found after, s.FollowsAll seen names found after ∧ seen ⊆ after := by
  -- The calls go on from a growing list, so the induction is about any list that holds `seen`.
  suffices h : ∀ seen', seen ⊆ seen' →
      ∃ found after, s.FollowsAll seen' names found after ∧ seen' ⊆ after from
    h seen (List.Subset.refl seen)
  induction names with
  | nil =>
    intro seen' _
    exact ⟨[], seen', .nil, List.Subset.refl seen'⟩
  | cons name names ih =>
    intro seen' hsub
    obtain ⟨found, between, hfollows, hbetween⟩ := hone seen' name hsub
    obtain ⟨more, after, hall, hafter⟩ := ih between (List.Subset.trans hsub hbetween)
    exact ⟨found ++ more, after, .cons hfollows hall, List.Subset.trans hbetween hafter⟩

/-- **Every call of the search ends**, whatever unions refer to each other: a call that follows
a union leaves fewer names to be followed. -/
theorem exists_follows (s : Schema) (seen : List String) (name : String) :
    ∃ found after, s.Follows seen name found after ∧ seen ⊆ after := by
  by_cases hs : name ∈ seen
  · exact ⟨[], seen, .again hs, List.Subset.refl seen⟩
  · cases hd : s.definition? name with
    | none => exact ⟨[], name :: seen, .undefined hs hd, List.subset_cons_self name seen⟩
    | some d =>
      cases d with
      | struct members =>
        exact ⟨[name], name :: seen, .struct hs hd, List.subset_cons_self name seen⟩
      | union variants =>
        have hlt := unseen_cons_length hd hs
        obtain ⟨found, after, hall, hafter⟩ := exists_followsAll (name :: seen) variants
          fun seen' variant hsub =>
            have hle : (s.unseen seen').length ≤ (s.unseen (name :: seen)).length :=
              length_unseen_le hsub
            exists_follows s seen' variant
        have hsub : seen ⊆ after := List.Subset.trans (List.subset_cons_self name seen) hafter
        exact ⟨found, after, .union hs hd hall, hsub⟩
termination_by (s.unseen seen).length

/-- The search for a name finds its symbols. -/
theorem follows_symbols (s : Schema) (name : String) :
    ∃ after, s.Follows [] name (s.symbols name) after := by
  obtain ⟨found, after, hfollows, -⟩ := exists_follows s [] name
  have hfound : s.symbols name = found := by
    rw [symbols, hfollows.reach_eq, reach_nil, List.append_nil]
  exact ⟨after, hfound ▸ hfollows⟩

/-! ## Nothing is found twice -/

variable {seen pending : List String} {name symbol : String}

/-- Names that have been followed are not found again. -/
theorem not_mem_seen_of_mem_reach (h : symbol ∈ s.reach seen pending) : symbol ∉ seen := by
  fun_induction s.reach seen pending with
  | case1 => simp at h
  | case2 seen name pending hs ih => exact ih h
  | case3 seen name pending hs hd ih => exact ih h
  | case4 seen name pending hs members hd ih =>
    rcases List.mem_cons.1 h with rfl | h
    · exact hs
    · exact fun hmem => ih h (List.mem_cons_of_mem name hmem)
  | case5 seen name pending hs variants hd ih =>
    exact fun hmem => ih h (List.mem_cons_of_mem name hmem)

theorem nodup_reach (s : Schema) (seen pending : List String) : (s.reach seen pending).Nodup := by
  fun_induction s.reach seen pending with
  | case1 => exact List.nodup_nil
  | case2 seen name pending hs ih => exact ih
  | case3 seen name pending hs hd ih => exact ih
  | case4 seen name pending hs members hd ih =>
    refine List.nodup_cons.2 ⟨?_, ih⟩
    exact fun hmem => not_mem_seen_of_mem_reach hmem List.mem_cons_self
  | case5 seen name pending hs variants hd ih => exact ih

/-! ## What is found -/

/-- What is found is a struct that one of the pending names leads to. -/
theorem leads_of_mem_reach (h : symbol ∈ s.reach seen pending) :
    s.IsStruct symbol ∧ ∃ name ∈ pending, s.Leads name symbol := by
  fun_induction s.reach seen pending with
  | case1 => simp at h
  | case2 seen name pending hs ih =>
    obtain ⟨hstruct, other, hmem, hleads⟩ := ih h
    exact ⟨hstruct, other, List.mem_cons_of_mem name hmem, hleads⟩
  | case3 seen name pending hs hd ih =>
    obtain ⟨hstruct, other, hmem, hleads⟩ := ih h
    exact ⟨hstruct, other, List.mem_cons_of_mem name hmem, hleads⟩
  | case4 seen name pending hs members hd ih =>
    rcases List.mem_cons.1 h with rfl | h
    · exact ⟨⟨members, hd⟩, symbol, List.mem_cons_self, .refl⟩
    · obtain ⟨hstruct, other, hmem, hleads⟩ := ih h
      exact ⟨hstruct, other, List.mem_cons_of_mem name hmem, hleads⟩
  | case5 seen name pending hs variants hd ih =>
    obtain ⟨hstruct, other, hmem, hleads⟩ := ih h
    refine ⟨hstruct, ?_⟩
    rcases List.mem_append.1 hmem with hvariant | hmem
    · exact ⟨name, List.mem_cons_self, .head ⟨variants, hd, hvariant⟩ hleads⟩
    · exact ⟨other, List.mem_cons_of_mem name hmem, hleads⟩

/-- A step of the search graph to a name that has not been followed. -/
def RefersOutside (s : Schema) (seen : List String) (name variant : String) : Prop :=
  s.Refers name variant ∧ variant ∉ seen

theorem leads_of_outside {start : String}
    (h : Relation.ReflTransGen (s.RefersOutside seen) start symbol) : s.Leads start symbol :=
  Relation.ReflTransGen.mono (fun _ _ hstep => hstep.1) _ _ h

/-- With no name followed, every way is a way around the followed names. -/
theorem Leads.outside_nil (h : s.Leads name symbol) :
    Relation.ReflTransGen (s.RefersOutside []) name symbol :=
  Relation.ReflTransGen.mono (fun _ _ hstep => ⟨hstep, List.not_mem_nil⟩) _ _ h

/-- A way around the followed names either avoids one more name, or goes on from it for the last
time. -/
theorem avoids_or_passes {start : String} (avoided : String)
    (h : Relation.ReflTransGen (s.RefersOutside seen) start symbol) :
    Relation.ReflTransGen (s.RefersOutside (avoided :: seen)) start symbol ∨ symbol = avoided ∨
      ∃ variant, s.RefersOutside (avoided :: seen) avoided variant ∧
        Relation.ReflTransGen (s.RefersOutside (avoided :: seen)) variant symbol := by
  induction h using Relation.ReflTransGen.head_induction_on with
  | refl => exact Or.inl .refl
  | @head start next hstep _ ih =>
    rcases ih with havoids | hpasses
    · by_cases hnext : next = avoided
      · -- The way goes through the name itself, and never again after it.
        subst hnext
        right
        rcases havoids.cases_head with heq | ⟨variant, hvariant, hrest⟩
        · exact Or.inl heq.symm
        · exact Or.inr ⟨variant, hvariant, hrest⟩
      · exact Or.inl (.head ⟨hstep.1, by simp [hnext, hstep.2]⟩ havoids)
    · exact Or.inr hpasses

/-- **No struct is lost**: one that a pending name leads to, by a way around the names that have
been followed, is found. -/
theorem mem_reach_of_leads {start : String} (hstruct : s.IsStruct symbol) (hmem : start ∈ pending)
    (hstart : start ∉ seen) (hway : Relation.ReflTransGen (s.RefersOutside seen) start symbol) :
    symbol ∈ s.reach seen pending := by
  fun_induction s.reach seen pending generalizing start with
  | case1 => simp at hmem
  | case2 seen name pending hs ih =>
    rcases List.mem_cons.1 hmem with rfl | hmem
    · exact absurd hs hstart
    · exact ih hmem hstart hway
  | case3 seen name pending hs hd ih =>
    rcases List.mem_cons.1 hmem with rfl | hmem
    · -- A name that is not defined leads nowhere and is no struct.
      exfalso
      rcases hway.cases_head with rfl | ⟨variant, ⟨⟨variants, hunion, -⟩, -⟩, -⟩
      · obtain ⟨members, hdef⟩ := hstruct
        rw [hd] at hdef
        cases hdef
      · rw [hd] at hunion
        cases hunion
    · exact ih hmem hstart hway
  | case4 seen name pending hs members hd ih =>
    by_cases hsymbol : symbol = name
    · rw [hsymbol]
      exact List.mem_cons_self
    · refine List.mem_cons_of_mem name ?_
      have hname : s.IsStruct name := ⟨members, hd⟩
      have hne : start ≠ name := by
        rintro rfl
        exact hsymbol (hname.eq_of_leads (leads_of_outside hway))
      have hlater : start ∈ pending := List.mem_of_ne_of_mem hne hmem
      rcases avoids_or_passes name hway with havoids | heq | ⟨variant, hvariant, -⟩
      · exact ih hlater (by simp [hne, hstart]) havoids
      · exact absurd heq hsymbol
      · exact absurd hvariant.1 (hname.not_refers variant)
  | case5 seen name pending hs variants hd ih =>
    have hsymbol : symbol ≠ name := by
      rintro rfl
      obtain ⟨members, hdef⟩ := hstruct
      rw [hd] at hdef
      cases hdef
    -- From the union on, the way is one from a variant that never comes back to the union.
    have hpast : ∀ variant, s.RefersOutside (name :: seen) name variant →
        Relation.ReflTransGen (s.RefersOutside (name :: seen)) variant symbol →
        symbol ∈ s.reach (name :: seen) (variants ++ pending) := by
      rintro variant ⟨⟨variants', hunion, hvariant⟩, hfresh⟩ hrest
      rw [hd, Option.some.injEq, Definition.union.injEq] at hunion
      exact ih (List.mem_append_left pending (hunion ▸ hvariant)) hfresh hrest
    rcases avoids_or_passes name hway with havoids | heq | ⟨variant, hvariant, hrest⟩
    · by_cases hne : start = name
      · subst hne
        rcases havoids.cases_head with heq | ⟨variant, hvariant, hrest⟩
        · exact absurd heq.symm hsymbol
        · exact hpast variant hvariant hrest
      · have hlater : start ∈ pending := List.mem_of_ne_of_mem hne hmem
        exact ih (List.mem_append_right variants hlater) (by simp [hne, hstart]) havoids
    · exact absurd heq hsymbol
    · exact hpast variant hvariant hrest

/-! ## Symbols -/

/-- The symbols of a name are the structs that it leads to. -/
theorem mem_symbols_iff : symbol ∈ s.symbols name ↔ s.IsStruct symbol ∧ s.Leads name symbol := by
  constructor
  · intro h
    obtain ⟨hstruct, start, hmem, hleads⟩ := leads_of_mem_reach h
    obtain rfl := List.mem_singleton.1 hmem
    exact ⟨hstruct, hleads⟩
  · rintro ⟨hstruct, hleads⟩
    exact mem_reach_of_leads hstruct (List.mem_singleton_self name) List.not_mem_nil
      (Leads.outside_nil hleads)

/-- A struct stands for itself alone. -/
theorem IsStruct.symbols_eq (h : s.IsStruct name) : s.symbols name = [name] := by
  obtain ⟨members, hd⟩ := h
  rw [symbols, reach_of_struct List.not_mem_nil hd, reach_nil]

/-- **A name stands for the structs that it leads to.**  The search for them ends, however unions
refer to each other; it finds each struct once, and finds exactly those that are reached through
unions.  Each of them has members, and stands for itself alone. -/
theorem symbols_resolution (s : Schema) (name : String) :
    (∃ after, s.Follows [] name (s.symbols name) after) ∧
    (s.symbols name).Nodup ∧
    (∀ symbol, symbol ∈ s.symbols name ↔
      (∃ members, s.definition? symbol = some (.struct members)) ∧
        Relation.ReflTransGen s.Refers name symbol) ∧
    ∀ symbol ∈ s.symbols name,
      (s.members? symbol).isSome = true ∧ s.symbols symbol = [symbol] := by
  refine ⟨follows_symbols s name, nodup_reach s [] [name], fun symbol => mem_symbols_iff, ?_⟩
  intro symbol hmem
  have hstruct : s.IsStruct symbol := (mem_symbols_iff.1 hmem).1
  exact ⟨isStruct_iff_members?.1 hstruct, hstruct.symbols_eq⟩

/-- Two unions that refer to each other, one of them twice, and to a struct and to a name that
is not defined. -/
def circular : Schema :=
  (((Schema.empty.withStruct "Leaf" []).withUnion "Left" ["Right", "Missing", "Right"]).withUnion
    "Right" ["Right", "Left", "Leaf"])

/-- In a circle of unions the one struct is found, and stands for itself. -/
theorem symbols_resolution_circular :
    "Leaf" ∈ circular.symbols "Left" ∧ (circular.symbols "Left").Nodup ∧
      (circular.members? "Leaf").isSome = true ∧ circular.symbols "Leaf" = ["Leaf"] := by
  have hleft : circular.definition? "Left" = some (.union ["Right", "Missing", "Right"]) := by
    decide +kernel
  have hright : circular.definition? "Right" = some (.union ["Right", "Left", "Leaf"]) := by
    decide +kernel
  have hleaf : circular.definition? "Leaf" = some (.struct []) := by decide +kernel
  obtain ⟨-, hnodup, hiff, hbelow⟩ := symbols_resolution circular "Left"
  have hmem : "Leaf" ∈ circular.symbols "Left" :=
    (hiff "Leaf").2 ⟨⟨[], hleaf⟩,
      .head ⟨_, hleft, by decide⟩ (.head ⟨_, hright, by decide⟩ .refl)⟩
  exact ⟨hmem, hnodup, hbelow "Leaf" hmem⟩

end FieldTree.Schema
