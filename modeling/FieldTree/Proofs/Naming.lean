/-
# Identifiers of the script language

A module declares constants, and the identifiers of these are made of the names of fields and
types.  Title case and lower case change letters into letters and drop some signs, so of names they
make names again.  But the name of a type may have points in it, as that of a type in a namespace
has, and a point stays where it is; the script language allows none in an identifier.

* `Lens.isIdentifier_iff` : an identifier is a name without points;
* `Lens.isName_identifier`, `Lens.isName_traversalIdentifier` : what is declared has a name, with a
  point in it exactly if the type that it is made of has one;
* `Schema.Mentioned` : the types that the identifiers of a module are made of;
* `Decomposition.lens_identifiers` : a module declares nothing but identifiers exactly if none of
  these types has a point in its name.
-/
import FieldTree.Proofs.Chains
import FieldTree.Proofs.Lexing
import FieldTree.TypeExpr.Parser

namespace FieldTree

open TypeExpr (IsName startsName continuesName continuesName_of_startsName)

/-! ## Characters of names -/

namespace Text

/-- What holds of the 128 characters of ASCII, one by one, holds of every ASCII character. -/
theorem forall_ascii {motive : Char → Prop} (h : ∀ n < 128, motive (Char.ofNat n)) {c : Char}
    (hc : c.toNat < 128) : motive c := by
  rw [← Char.ofNat_toNat c]
  exact h c.toNat hc

/-- The run of the letters from `A` to `Z` stands first in the table of lower cases, and no other
ASCII character is in it. -/
theorem findSome?_caseRuns_of_ascii {c : Char} (hc : c.toNat < 128) :
    caseRuns.findSome? (·.lower? c.toNat)
      = if c.toLower = c then none else some c.toLower.toNat := by
  have hletters : caseRuns = ⟨0x41, 0x5a, 1, 0x61⟩ :: caseRuns.tail := rfl
  have hfar : ∀ run ∈ caseRuns.tail, 128 ≤ run.first := by decide +kernel
  have hnone : caseRuns.tail.findSome? (·.lower? c.toNat) = none := by
    rw [List.findSome?_eq_none_iff]
    intro run hrun
    have hfirst := hfar run hrun
    rw [CaseRun.lower?, if_neg]
    simp only [Bool.and_eq_true, decide_eq_true_eq]
    omega
  have hlower := forall_ascii (motive := fun c => CaseRun.lower? ⟨0x41, 0x5a, 1, 0x61⟩ c.toNat
    = if c.toLower = c then none else some c.toLower.toNat) (by decide +kernel) hc
  rw [hletters, List.findSome?_cons, hlower, hnone]
  split
  · next code hcode => exact hcode.symm
  · next hcode => exact hcode.symm

/-- An ASCII character has the lower case that letters from `A` to `Z` have. -/
theorem lowerChar_of_ascii {c : Char} (hc : c.toNat < 128) : lowerChar c = [c.toLower] := by
  have hne : c ≠ 'İ' := by
    rintro rfl
    exact absurd hc (by decide)
  rw [lowerChar, if_neg hne, findSome?_caseRuns_of_ascii hc]
  by_cases hsame : c.toLower = c
  · rw [if_pos hsame, hsame]
  · rw [if_neg hsame]
    show [Char.ofNat c.toLower.toNat] = _
    rw [Char.ofNat_toNat]

/-- An ASCII text is put in lower case character by character. -/
theorem lowerAfter_of_ascii {s : List Char} (hs : ∀ c ∈ s, c.toNat < 128) (before : List Char) :
    lowerAfter before s = s.map Char.toLower := by
  induction s generalizing before with
  | nil => rfl
  | cons c rest ih =>
    rw [List.forall_mem_cons] at hs
    have hsigma : c ≠ 'Σ' := by
      rintro rfl
      exact absurd hs.1 (by decide)
    rw [lowerAfter, if_neg hsigma, lowerChar_of_ascii hs.1, ih hs.2]
    rfl

end Text

namespace TypeExpr

variable {c : Char}

/-- The characters of names are ASCII. -/
theorem toNat_lt_of_continuesName (h : continuesName c = true) : c.toNat < 128 := by
  have halpha : c.isAlpha = (decide (c.val ≥ 'A'.val ∧ c.val ≤ 'Z'.val)
      || (c.val ≥ 'a'.val && c.val ≤ 'z'.val)) := rfl
  simp only [continuesName, startsName, halpha, Char.isDigit, Bool.or_eq_true, Bool.and_eq_true,
    decide_eq_true_eq, beq_iff_eq, UInt32.le_iff_toNat_le, ge_iff_le] at h
  have hcode : c.toNat = c.val.toNat := rfl
  have hZ : 'Z'.val.toNat = 90 := rfl
  have hz : 'z'.val.toNat = 122 := rfl
  have h9 : '9'.val.toNat = 57 := rfl
  rcases h with ((((hupper | hlower) | rfl) | rfl) | hdigit) | rfl
  · omega
  · omega
  · decide
  · decide
  · omega
  · decide

/-- The lower case of a character of names is one, and no other character becomes a point. -/
theorem continuesName_toLower (h : continuesName c = true) :
    continuesName c.toLower = true ∧ (startsName c = true → startsName c.toLower = true) ∧
      (c.toLower = '.' ↔ c = '.') :=
  Text.forall_ascii (motive := fun c => continuesName c = true → continuesName c.toLower = true ∧
    (startsName c = true → startsName c.toLower = true) ∧ (c.toLower = '.' ↔ c = '.'))
    (by decide +kernel) (toNat_lt_of_continuesName h) h

/-- So is its upper case. -/
theorem continuesName_toUpper (h : continuesName c = true) :
    continuesName c.toUpper = true ∧ (c.toUpper = '.' ↔ c = '.') :=
  Text.forall_ascii (motive := fun c => continuesName c = true → continuesName c.toUpper = true ∧
    (c.toUpper = '.' ↔ c = '.'))
    (by decide +kernel) (toNat_lt_of_continuesName h) h

/-- A name goes on as long as characters of names follow it. -/
theorem IsName.append {s t : String} (hs : IsName s) (ht : ∀ c ∈ t.toList, continuesName c = true) :
    IsName (s ++ t) := by
  obtain ⟨c, rest, hcons, hc, hrest⟩ := hs
  refine ⟨c, rest ++ t.toList, by rw [String.toList_append, hcons]; rfl, hc, ?_⟩
  rw [List.all_append, hrest, List.all_eq_true.2 ht]
  rfl

end TypeExpr

/-! ## The three kinds of identifiers -/

namespace Lens

variable {s owner field element : String} {cs : List Char}

/-- A text is an identifier of the script language: it starts with a letter, `_` or `$` and goes on
with these and digits. -/
def IsIdentifier (s : String) : Prop :=
  ∃ c rest, s.toList = c :: rest ∧ startsName c = true ∧
    ∀ d ∈ rest, startsName d = true ∨ d.isDigit = true

/-- An identifier is a name without points. -/
theorem isIdentifier_iff : IsIdentifier s ↔ IsName s ∧ '.' ∉ s.toList := by
  have hchar : ∀ d, (startsName d = true ∨ d.isDigit = true) ↔
      continuesName d = true ∧ d ≠ '.' := by
    intro d
    have hpoint : ¬(startsName '.' = true ∨ '.'.isDigit = true) := by decide
    simp only [continuesName, Bool.or_eq_true, beq_iff_eq]
    constructor
    · intro h
      exact ⟨Or.inl h, fun heq => hpoint (heq ▸ h)⟩
    · rintro ⟨h, hne⟩
      exact h.resolve_right hne
  constructor
  · rintro ⟨c, rest, hs, hc, hrest⟩
    refine ⟨⟨c, rest, hs, hc, List.all_eq_true.2 fun d hd => ((hchar d).1 (hrest d hd)).1⟩, ?_⟩
    rw [hs, List.mem_cons, not_or]
    exact ⟨((hchar c).1 (Or.inl hc)).2.symm, fun hmem => ((hchar _).1 (hrest _ hmem)).2 rfl⟩
  · rintro ⟨⟨c, rest, hs, hc, hrest⟩, hpoint⟩
    rw [hs, List.mem_cons, not_or] at hpoint
    refine ⟨c, rest, hs, hc, fun d hd => (hchar d).2 ⟨List.all_eq_true.1 hrest d hd, ?_⟩⟩
    rintro rfl
    exact hpoint.2 hd

/-- Title case makes characters of names out of such. -/
theorem continuesName_of_mem_titleChars (hcs : ∀ c ∈ cs, continuesName c = true) (start : Bool) :
    ∀ c ∈ titleChars start cs, continuesName c = true := by
  fun_induction titleChars start cs with
  | case1 => exact nofun
  | case2 start c rest hsign ih => exact ih (List.forall_mem_cons.1 hcs).2
  | case3 start c rest hsign ih =>
    rw [List.forall_mem_cons] at hcs ⊢
    refine ⟨?_, ih hcs.2⟩
    split
    · exact (TypeExpr.continuesName_toUpper hcs.1).1
    · exact hcs.1

/-- Title case neither takes points away nor adds any. -/
theorem point_mem_titleChars (hcs : ∀ c ∈ cs, continuesName c = true) (start : Bool) :
    '.' ∈ titleChars start cs ↔ '.' ∈ cs := by
  fun_induction titleChars start cs with
  | case1 => exact Iff.rfl
  | case2 start c rest hsign ih =>
    have hne : '.' ≠ c := by
      rintro rfl
      exact absurd hsign (by decide)
    rw [ih (List.forall_mem_cons.1 hcs).2, List.mem_cons, or_iff_right hne]
  | case3 start c rest hsign ih =>
    rw [List.forall_mem_cons] at hcs
    have hfirst : '.' = (if start = true then c.toUpper else c) ↔ '.' = c := by
      split
      · rw [eq_comm, (TypeExpr.continuesName_toUpper hcs.1).2, eq_comm]
      · exact Iff.rfl
    rw [List.mem_cons, List.mem_cons, ih hcs.2, hfirst]

/-- The title case of a name is made of characters of names, with points if the name has any. -/
theorem titleCase_of_isName (hs : IsName s) :
    (∀ c ∈ (titleCase s).toList, continuesName c = true) ∧
      ('.' ∈ (titleCase s).toList ↔ '.' ∈ s.toList) := by
  rw [titleCase, String.toList_ofList]
  exact ⟨continuesName_of_mem_titleChars hs.all true, point_mem_titleChars hs.all true⟩

/-- The lens on a field has a name, with a point in it exactly if the owner has one. -/
theorem isName_identifier (howner : IsName owner) (hfield : IsIdentifier field) :
    IsName (identifier owner field) ∧
      ('.' ∈ (identifier owner field).toList ↔ '.' ∈ owner.toList) := by
  obtain ⟨hname, hnone⟩ := isIdentifier_iff.1 hfield
  obtain ⟨htitle, hpoint⟩ := titleCase_of_isName hname
  obtain ⟨htitle', hpoint'⟩ := titleCase_of_isName howner
  have hget : IsName "get" := ⟨'g', ['e', 't'], by decide, by decide, by decide⟩
  constructor
  · exact ((hget.append htitle).append (List.all_eq_true.1 (by decide))).append htitle'
  · rw [identifier, String.toList_append, String.toList_append, String.toList_append,
      List.mem_append, hpoint', List.mem_append, List.mem_append, hpoint, or_iff_right]
    rintro ((h | h) | h)
    · exact absurd h (by decide)
    · exact hnone h
    · exact absurd h (by decide)

/-- The traversal of an array has a name, with a point in it exactly if the element has one. -/
theorem isName_traversalIdentifier (helement : IsName element) :
    IsName (traversalIdentifier element) ∧
      ('.' ∈ (traversalIdentifier element).toList ↔ '.' ∈ element.toList) := by
  have hascii : ∀ c ∈ element.toList, c.toNat < 128 := fun c hc =>
    TypeExpr.toNat_lt_of_continuesName (helement.all c hc)
  have hlower : (Text.lower element).toList = element.toList.map Char.toLower := by
    rw [Text.lower, String.toList_ofList, Text.lowerChars, Text.lowerAfter_of_ascii hascii]
  constructor
  · apply IsName.append ?_ (List.all_eq_true.1 (by decide))
    have hall := helement.all
    obtain ⟨c, rest, hcons, hc, -⟩ := helement
    rw [hcons, List.forall_mem_cons] at hall
    refine ⟨c.toLower, rest.map Char.toLower, by rw [hlower, hcons, List.map_cons], ?_, ?_⟩
    · exact (TypeExpr.continuesName_toLower hall.1).2.1 hc
    · rw [List.all_eq_true, List.forall_mem_map]
      exact fun d hd => (TypeExpr.continuesName_toLower (hall.2 d hd)).1
  · rw [traversalIdentifier, String.toList_append, List.mem_append, hlower, List.mem_map,
      or_iff_left (by decide)]
    constructor
    · rintro ⟨c, hc, heq⟩
      rwa [(TypeExpr.continuesName_toLower (helement.all c hc)).2.2.1 heq] at hc
    · intro hmem
      exact ⟨'.', hmem, rfl⟩

end Lens

/-! ## Nodes of arrays and records -/

namespace Handler

variable {handler other : Handler} {handlers : List Handler} {ctx : Introspection} {parent : Node}
  {d : Declaration} {target : String}

/-- The built-in handlers make nodes of different kinds. -/
theorem eq_of_kind_create (hh : handler ∈ defaults) (ho : other ∈ defaults)
    (hkind : (other.create ctx parent d).kind = (handler.create ctx parent d).kind) :
    other = handler := by
  simp only [defaults, List.mem_cons, List.not_mem_nil, or_false] at hh ho
  rcases hh with rfl | rfl | rfl <;> rcases ho with rfl | rfl | rfl <;>
    first
      | rfl
      | cases hkind

/-- A built-in handler that recognises a declaration makes the node of it, wherever it stands in the
chain. -/
theorem node_eq_create (hb : ∀ handler ∈ handlers, handler ∈ defaults) (hh : handler ∈ handlers)
    (hr : handler.recognizes d = true) :
    node ctx handlers parent d = handler.create ctx parent d := by
  obtain ⟨found, hfound⟩ := Option.isSome_iff_exists.1
    (List.find?_isSome (p := (·.recognizes d)).2 ⟨handler, hh, hr⟩)
  have hmem := List.mem_of_find?_eq_some hfound
  have heq := eq_of_recognizes (hb handler hh) (hb found hmem) hr (recognizes_of_find? hfound)
  rw [node, hfound, heq]

/-- A node has the kind and a target of a built-in handler if this handler is in the chain and leads
to the target. -/
theorem node_kind_target_iff (hb : ∀ handler ∈ handlers, handler ∈ defaults)
    (hh : handler ∈ defaults) :
    (node ctx handlers parent d).kind = (handler.create ctx parent d).kind ∧
        (node ctx handlers parent d).target = some target ↔
      handler ∈ handlers ∧ handler.Targets d target := by
  constructor
  · rintro ⟨hkind, htarget⟩
    obtain ⟨kind, target?, hnode, -, htargets⟩ := node_of_builtin hb ctx parent d
    obtain ⟨other, ho, hleads⟩ := (htargets target).1 (by rw [← htarget, hnode]; rfl)
    rw [node_eq_create hb ho hleads.1] at hkind
    rw [← eq_of_kind_create hh (hb other ho) hkind]
    exact ⟨ho, hleads⟩
  · rintro ⟨hmem, hleads⟩
    rw [node_eq_create hb hmem hleads.1]
    exact ⟨rfl, hleads.2 ctx parent⟩

end Handler

/-! ## Types that identifiers are made of -/

namespace Schema

/-- Names in a schema are called as they can be written: types that are defined, and types that a
built-in handler leads to, by names, and properties by identifiers of the script language. -/
structure WellNamed (s : Schema) : Prop where
  types : ∀ name ∈ s.names, IsName name
  targets : ∀ owner d, s.Declares owner d → ∀ handler ∈ Handler.defaults, ∀ target,
    handler.Targets d target → IsName target
  fields : ∀ owner d, s.Declares owner d → Lens.IsIdentifier d.name

/-- The types that the identifiers of the module for a root type are made of: a reached struct with
a property, the element type of such a property that is an array, and the value type of one that is
a record. -/
inductive Mentioned (s : Schema) (handlers : List Handler) (root : String) : String → Prop where
  | owner {owner : String} {d : Declaration} :
      s.Reached handlers root owner → s.Declares owner d → Mentioned s handlers root owner
  | element {owner target : String} {d : Declaration} :
      s.Reached handlers root owner → s.Declares owner d → Handler.array ∈ handlers →
      Handler.array.Targets d target → Mentioned s handlers root target
  | value {owner target : String} {d : Declaration} :
      s.Reached handlers root owner → s.Declares owner d → Handler.record ∈ handlers →
      Handler.record.Targets d target → Mentioned s handlers root target

theorem Declares.mem_names {s : Schema} {owner : String} {d : Declaration}
    (hd : s.Declares owner d) : owner ∈ s.names := by
  obtain ⟨members, hmembers, -⟩ := hd
  exact mem_names_of_definition? hmembers

end Schema

namespace Decomposition

variable {s : Schema} {handlers : List Handler} {maxDepth : Option Nat}
  {root owner type key : String}
  {t : Rose Node} {x : Node} {d : Declaration} {c : Lens.Candidate}

/-- What the field of a struct gives rise to: the lens on it, the traversal of its elements if it is
recognised as an array, and the lens into its values if it is recognised as a record. -/
theorem mem_candidates_child_iff (hb : ∀ handler ∈ handlers, handler ∈ Handler.defaults) :
    c ∈ Lens.candidates key ((ofSchema s handlers maxDepth).child x owner d) ↔
      c = ⟨Lens.identifier owner d.name, Lens.field owner d.name⟩ ∨
      (Handler.array ∈ handlers ∧ ∃ element, Handler.array.Targets d element ∧
        c = ⟨Lens.traversalIdentifier element, Lens.traversal element⟩) ∨
      (Handler.record ∈ handlers ∧ ∃ value, Handler.record.Targets d value ∧
        c = ⟨Lens.identifier value d.name, Lens.record value d.name key⟩) := by
  have hfield : ((ofSchema s handlers maxDepth).child x owner d).owner = some owner ∧
      ((ofSchema s handlers maxDepth).child x owner d).name = d.name ∧
      ((ofSchema s handlers maxDepth).child x owner d).kind ≠ .root := child_fields hb x owner d
  obtain ⟨howner, hname, hkind⟩ := hfield
  rw [Lens.mem_candidates_iff, and_iff_right hkind, Lens.own, Node.ownerOrName, howner, hname]
  -- Either further candidate comes from the kind and the target that its handler gives the node.
  have hshape : ∀ handler ∈ Handler.defaults, ∀ make : String → Lens.Candidate,
      ((Handler.node s.introspection handlers x d).kind
            = (handler.create s.introspection x d).kind ∧
          ∃ target, (Handler.node s.introspection handlers x d).target = some target ∧
            c = make target) ↔
        handler ∈ handlers ∧ ∃ target, handler.Targets d target ∧ c = make target := by
    intro handler hh make
    constructor
    · rintro ⟨hkind, target, htarget, hc⟩
      obtain ⟨hmem, hleads⟩ := (Handler.node_kind_target_iff hb hh).1 ⟨hkind, htarget⟩
      exact ⟨hmem, target, hleads, hc⟩
    · rintro ⟨hmem, target, hleads, hc⟩
      obtain ⟨hkind, htarget⟩ := (Handler.node_kind_target_iff hb hh).2 ⟨hmem, hleads⟩
      exact ⟨hkind, target, htarget, hc⟩
  exact or_congr Iff.rfl (or_congr
    (hshape Handler.array (by simp [Handler.defaults]) _)
    (hshape Handler.record (by simp [Handler.defaults]) _))

/-- A candidate of a field is called by a name that is made of a type that is mentioned. -/
theorem exists_mentioned_of_mem_candidates (hs : s.WellNamed)
    (hb : ∀ handler ∈ handlers, handler ∈ Handler.defaults)
    (hreached : s.Reached handlers root owner) (hd : s.Declares owner d)
    (hc : c ∈ Lens.candidates key ((ofSchema s handlers maxDepth).child x owner d)) :
    ∃ type, s.Mentioned handlers root type ∧ IsName c.identifier ∧
      ('.' ∈ c.identifier.toList ↔ '.' ∈ type.toList) := by
  have hfield := hs.fields owner d hd
  rcases (mem_candidates_child_iff hb).1 hc with
    rfl | ⟨hmem, element, hleads, rfl⟩ | ⟨hmem, value, hleads, rfl⟩
  · exact ⟨owner, .owner hreached hd, Lens.isName_identifier (hs.types owner hd.mem_names) hfield⟩
  · exact ⟨element, .element hreached hd hmem hleads,
      Lens.isName_traversalIdentifier (hs.targets owner d hd _ (hb _ hmem) element hleads)⟩
  · exact ⟨value, .value hreached hd hmem hleads,
      Lens.isName_identifier (hs.targets owner d hd _ (hb _ hmem) value hleads) hfield⟩

/-- A type that is mentioned is one that a candidate of a field is made of. -/
theorem exists_mem_candidates_of_mentioned (maxDepth : Option Nat) (hs : s.WellNamed)
    (hb : ∀ handler ∈ handlers, handler ∈ Handler.defaults) (key : String)
    (hm : s.Mentioned handlers root type) :
    ∃ owner d, s.Reached handlers root owner ∧ s.Declares owner d ∧ ∀ x,
      ∃ c ∈ Lens.candidates key ((ofSchema s handlers maxDepth).child x owner d),
        '.' ∈ c.identifier.toList ↔ '.' ∈ type.toList := by
  cases hm with
  | @owner _ d hreached hd =>
    refine ⟨type, d, hreached, hd, fun x => ⟨_, (mem_candidates_child_iff hb).2 (Or.inl rfl), ?_⟩⟩
    exact (Lens.isName_identifier (hs.types type hd.mem_names) (hs.fields type d hd)).2
  | @element owner _ d hreached hd hmem hleads =>
    refine ⟨owner, d, hreached, hd, fun x =>
      ⟨_, (mem_candidates_child_iff hb).2 (Or.inr (Or.inl ⟨hmem, type, hleads, rfl⟩)), ?_⟩⟩
    exact (Lens.isName_traversalIdentifier (hs.targets owner d hd _ (hb _ hmem) type hleads)).2
  | @value owner _ d hreached hd hmem hleads =>
    refine ⟨owner, d, hreached, hd, fun x =>
      ⟨_, (mem_candidates_child_iff hb).2 (Or.inr (Or.inr ⟨hmem, type, hleads, rfl⟩)), ?_⟩⟩
    exact (Lens.isName_identifier (hs.targets owner d hd _ (hb _ hmem) type hleads)
      (hs.fields owner d hd)).2

/-- What the module for a tree keeps comes from the fields of reached structs. -/
theorem exists_field_of_mem_kept (hb : ∀ handler ∈ handlers, handler ∈ Handler.defaults)
    (ht : t.Unfolds (ofSchema s handlers maxDepth).offspring) (hroot : t.value = .root root)
    (hc : c ∈ Lens.kept key t.preorder) :
    ∃ x owner d, s.Reached handlers root owner ∧ s.Declares owner d ∧
      c ∈ Lens.candidates key ((ofSchema s handlers maxDepth).child x owner d) := by
  obtain ⟨y, hy, hcandidate⟩ := Lens.exists_of_mem_kept hc
  rw [Rose.preorder_eq_cons, List.mem_cons] at hy
  rcases hy with rfl | hy
  · rw [Lens.candidates_root key (by rw [hroot]; rfl)] at hcandidate
    cases hcandidate
  · obtain ⟨x, hx, hxy⟩ := ht.mem_tail_preorder_iff.1 hy
    obtain ⟨owner, d, howner, hd, rfl⟩ := mem_offspring_iff.1 hxy
    exact ⟨x, owner, d, reached_of_mem_preorder hb ht hroot x hx owner howner, hd, hcandidate⟩

/-- Every property of a reached struct is a field of the tree. -/
theorem exists_child_mem_preorder (hb : ∀ handler ∈ handlers, handler ∈ Handler.defaults)
    (ht : t.Unfolds (ofSchema s handlers maxDepth).offspring) (hroot : t.value = .root root)
    (hreached : s.Reached handlers root owner) (hd : s.Declares owner d) :
    ∃ x, (ofSchema s handlers maxDepth).child x owner d ∈ t.preorder := by
  obtain ⟨x, hx, howner⟩ := exists_mem_preorder_of_reached hb ht hroot hreached
  have hchild : (ofSchema s handlers maxDepth).child x owner d
      ∈ (ofSchema s handlers maxDepth).offspring x :=
    mem_offspring_iff.2 ⟨owner, d, howner, hd, rfl⟩
  exact ⟨x, List.mem_of_mem_tail (ht.mem_tail_preorder_iff.2 ⟨x, hx, hchild⟩)⟩

/-- **A module declares identifiers exactly if no type that it mentions has a point in its name.**
Whatever the module for a tree declares is called by a name that is made of a type that it mentions,
and is an identifier of the script language exactly if this type has no point in its name. -/
theorem lens_identifiers (s : Schema) (hs : s.WellNamed) (root : String) (handlers : List Handler)
    (hb : ∀ handler ∈ handlers, handler ∈ Handler.defaults) (maxDepth : Option Nat) (a : Arena Node)
    (ha : ((ofSchema s handlers maxDepth).tree (.root root)).outcome = .ok a) (key : String) :
    a.lenses key = (Lens.kept key a.values).map Lens.Candidate.line ∧
    (∀ c ∈ Lens.kept key a.values, c.Declares ∧ IsName c.identifier ∧
      ∃ type, s.Mentioned handlers root type ∧
        (Lens.IsIdentifier c.identifier ↔ '.' ∉ type.toList)) ∧
    ((∀ c ∈ Lens.kept key a.values, Lens.IsIdentifier c.identifier) ↔
      ∀ type, s.Mentioned handlers root type → '.' ∉ type.toList) := by
  obtain ⟨t, hunfold, rfl⟩ := tree_eq_ok.1 ha
  obtain ⟨hroot, ht, -⟩ := Rose.unfold_eq_ok.1 hunfold
  rw [Arena.values_ofTree]
  have hkept : ∀ c ∈ Lens.kept key t.preorder, c.Declares ∧ IsName c.identifier ∧
      ∃ type, s.Mentioned handlers root type ∧
        (Lens.IsIdentifier c.identifier ↔ '.' ∉ type.toList) := by
    intro c hc
    obtain ⟨x, owner, d, hreached, hd, hcandidate⟩ := exists_field_of_mem_kept hb ht hroot hc
    obtain ⟨type, hm, hname, hpoint⟩ :=
      exists_mentioned_of_mem_candidates hs hb hreached hd hcandidate
    refine ⟨Lens.declares_of_mem_kept hc, hname, type, hm, ?_⟩
    rw [Lens.isIdentifier_iff, and_iff_right hname, hpoint]
  refine ⟨by rw [← Lens.declarations_eq, ← Arena.values_ofTree 0 t]; rfl, hkept, ?_⟩
  constructor
  · intro hall type hm
    obtain ⟨owner, d, hreached, hd, hmakes⟩ :=
      exists_mem_candidates_of_mentioned maxDepth hs hb key hm
    obtain ⟨x, hx⟩ := exists_child_mem_preorder hb ht hroot hreached hd
    obtain ⟨c, hcandidate, hpoint⟩ := hmakes x
    -- A module that keeps another candidate of this identifier declares it all the same.
    have hmem : c.identifier ∈ (Lens.kept key t.preorder).map Lens.Candidate.identifier := by
      rw [Lens.kept, Lens.mem_identifiers_firsts]
      exact ⟨List.mem_map_of_mem (List.mem_flatMap.2 ⟨_, hx, hcandidate⟩), List.not_mem_nil⟩
    obtain ⟨other, hother, heq⟩ := List.mem_map.1 hmem
    rw [← hpoint, ← heq]
    exact (Lens.isIdentifier_iff.1 (hall other hother)).2
  · intro hnone c hc
    obtain ⟨-, -, type, hm, hidentifier⟩ := hkept c hc
    exact hidentifier.2 (hnone type hm)

/-- A property of a cart: its items, of a type in a namespace. -/
def items : Declaration := ⟨"items", .property, .array (.reference "ns.Item"), false⟩

/-- A cart has items, whose type is defined elsewhere. -/
def cart : Schema := Schema.empty.withStruct "Cart" [.declared items]

theorem definition?_cart :
    cart.definition? "Cart" = some (.struct [.declared items]) ∧
    cart.definition? "ns.Item" = none := by
  decide +kernel

/-- The items are the only property in the schema. -/
theorem eq_items_of_declares (h : cart.Declares owner d) : owner = "Cart" ∧ d = items := by
  have hnames : cart.names = ["Cart"] := by decide +kernel
  obtain rfl : owner = "Cart" := List.mem_singleton.1 (hnames ▸ h.mem_names)
  obtain ⟨members, hstruct, hmem⟩ := h
  rw [definition?_cart.1, Option.some.injEq, Definition.struct.injEq] at hstruct
  rw [← hstruct] at hmem
  exact ⟨rfl, List.mem_singleton.1 hmem⟩

theorem targets_items : Handler.array.Targets items "ns.Item" := Handler.targets_ofTarget.2 rfl

/-- All names in the schema are called as they can be written. -/
theorem wellNamed_cart : cart.WellNamed where
  types name hname := by
    have hnames : cart.names = ["Cart"] := by decide +kernel
    obtain rfl : name = "Cart" := List.mem_singleton.1 (hnames ▸ hname)
    exact ⟨'C', ['a', 'r', 't'], by decide, by decide, by decide⟩
  targets owner d hd handler hh target hleads := by
    obtain ⟨rfl, rfl⟩ := eq_items_of_declares hd
    have harray : Handler.array ∈ Handler.defaults := List.mem_cons_self
    rw [Handler.targets_unique harray hh targets_items hleads]
    exact ⟨'n', "s.Item".toList, by decide, by decide, by decide⟩
  fields owner d hd := by
    obtain ⟨rfl, rfl⟩ := eq_items_of_declares hd
    rw [Lens.isIdentifier_iff]
    exact ⟨⟨'i', "tems".toList, by decide, by decide, by decide⟩, by decide⟩

/-- The node of the items of a cart. -/
def itemsNode : Node := ⟨.array, "items", some "Cart", some items, some "ns.Item"⟩

/-- The tree of a cart has one field. -/
theorem tree_cart :
    ((ofSchema cart Handler.defaults (some 1)).tree (.root "Cart")).outcome
      = .ok (.ofTree 0 (.node (.root "Cart") [.node itemsNode []])) := by
  obtain ⟨hcart, hitem⟩ := definition?_cart
  have hroot : cart.symbols "Cart" = ["Cart"] := Schema.IsStruct.symbols_eq ⟨_, hcart⟩
  have hsymbols : cart.symbols "ns.Item" = [] := by
    rw [Schema.symbols, Schema.reach_of_undefined hitem, Schema.reach_nil]
  have hunfold : Rose.unfold (ofSchema cart Handler.defaults (some 1)).offspring 1 (.root "Cart")
      = .ok (.node (.root "Cart") [.node itemsNode []]) := by
    refine Rose.unfold_eq_ok.2 ⟨rfl, ?_, by decide⟩
    refine .node ?_ (List.forall_mem_singleton.2 (.node ?_ (List.forall_mem_nil _)))
    · rw [offspring_of_struct (x := .root "Cart") hroot hcart]
      rfl
    · rw [offspring_of_no_struct (x := itemsNode) hsymbols]
      rfl
  exact tree_eq_ok.2 ⟨_, hunfold, rfl⟩

/-- The module for a cart mentions the type of its items, so not all that it declares is called by
an identifier. -/
theorem lens_identifiers_cart :
    cart.WellNamed ∧ (∀ handler ∈ Handler.defaults, handler ∈ Handler.defaults) ∧
    ∃ a, ((ofSchema cart Handler.defaults (some 1)).tree (.root "Cart")).outcome = .ok a ∧
      cart.Mentioned Handler.defaults "Cart" "ns.Item" ∧
      ¬∀ c ∈ Lens.kept "id" a.values, Lens.IsIdentifier c.identifier := by
  obtain ⟨-, -, hiff⟩ := lens_identifiers cart wellNamed_cart "Cart" Handler.defaults
    (fun _ h => h) (some 1) _ tree_cart "id"
  have hroot : cart.symbols "Cart" = ["Cart"] :=
    Schema.IsStruct.symbols_eq ⟨_, definition?_cart.1⟩
  have hm : cart.Mentioned Handler.defaults "Cart" "ns.Item" :=
    .element (.root (by rw [hroot]; rfl)) ⟨_, definition?_cart.1, List.mem_cons_self⟩
      List.mem_cons_self targets_items
  refine ⟨wellNamed_cart, fun _ h => h, _, tree_cart, hm, ?_⟩
  intro hall
  exact hiff.1 hall "ns.Item" hm (by decide)

/-- **Not everything that a module declares is called by an identifier of the script language.**
The type of the items of a cart is one that the notation has, but the traversal of the items is
declared under a name with a point in it. -/
theorem traversal_not_isIdentifier :
    TypeExpr.parse "ns.Item[]" = .ok items.type ∧ cart.WellNamed ∧
    ∃ a, ((ofSchema cart Handler.defaults (some 1)).tree (.root "Cart")).outcome = .ok a ∧
      a.lenses "id" = ["const getItemsFromCart = Lens.fromProp<Cart>()('items')",
        "const ns.itemTraversal = fromTraversable(array)<ns.Item>()"] ∧
      "ns.itemTraversal" ∈ (Lens.kept "id" a.values).map Lens.Candidate.identifier ∧
      ¬Lens.IsIdentifier "ns.itemTraversal" := by
  refine ⟨by decide +kernel, wellNamed_cart, _, tree_cart, by decide +kernel, by decide +kernel, ?_⟩
  rw [Lens.isIdentifier_iff]
  rintro ⟨-, hpoint⟩
  exact hpoint (by decide)

end Decomposition

end FieldTree
