/-
# Where scalars decompose

The name of a keyword type is read as that type only where no type arguments stand behind it: of
`string<A>` the name alone is kept, as a reference.  A schema may define a type under such a name,
and lookups go by names alone.  So a scalar decomposes into that type where its name stands before
arguments, or where a union lists it among its variants, and nowhere else.

* `TypeExpr.Applied` : a name stands before type arguments;
* `TypeExpr.UnionPhrase.applied` : a phrase that refers to something by the name of a keyword type
  applies that name;
* `Schema.exists_writtenAs` : the type of a property is one that the text of the schema writes;
* `Schema.reached_iff_lookedUp` : the structs that a tree reaches are the first ones that the names
  looked up for it stand for;
* `Decomposition.exists_child_iff` : whose properties stand below the nodes of a tree;
* `Decomposition.scalar_children_iff` : which scalars have their properties in a tree.
-/
import FieldTree.Proofs.Stages
import FieldTree.Proofs.Nesting
import FieldTree.Proofs.Subtrees

namespace FieldTree

namespace TypeExpr

variable {name : String} {e : TypeExpr}

/-! ## Names before type arguments -/

/-- Among some tokens a name stands before type arguments. -/
def Applied (name : String) (ts : List Token) : Prop := [.name name, .openAngle] <:+: ts

/-- What variants refer to, their union refers to, and nothing else. -/
theorem Joined.exists_mem_references {vs : List TypeExpr} (h : Joined vs e)
    (hname : name ∈ e.references) : ∃ v ∈ vs, name ∈ v.references := by
  cases h with
  | one => exact ⟨_, List.mem_cons_self, hname⟩
  | many _ =>
    rw [references, referencesAll_eq_flatMap] at hname
    exact List.mem_flatMap.1 hname

/-- A name with type arguments refers to what these refer to, or to itself: by the name of a
keyword type only if there are arguments. -/
theorem Named.exists_mem_references {head : String} {arguments : List TypeExpr}
    (h : Named head arguments e) (hname : name ∈ e.references) :
    (name = head ∧ (name ∈ keywordNames → arguments ≠ [])) ∨
      ∃ argument ∈ arguments, name ∈ argument.references := by
  cases h with
  | array _ => exact .inr ⟨_, List.mem_cons_self, hname⟩
  | map =>
    rw [references, List.mem_append] at hname
    rcases hname with hkey | hvalue
    · exact .inr ⟨_, List.mem_cons_self, hkey⟩
    · exact .inr ⟨_, List.mem_cons_of_mem _ List.mem_cons_self, hvalue⟩
  | keyword _ => cases hname
  | reference _ _ hkeyword =>
    obtain rfl : name = head := List.mem_singleton.1 hname
    refine .inl ⟨rfl, ?_⟩
    rintro hmem rfl
    exact hkeyword ⟨rfl, hmem⟩

/-- If one of a row of types refers to a name, the tokens of the first one apply it or those of the
others do. -/
theorem applied_append {ts us : List Token} {v : TypeExpr} {vs : List TypeExpr}
    (hname : ∃ w ∈ v :: vs, name ∈ w.references) (hfirst : name ∈ v.references → Applied name ts)
    (hothers : (∃ w ∈ vs, name ∈ w.references) → Applied name us) : Applied name (ts ++ us) := by
  rw [List.exists_mem_cons_iff] at hname
  rcases hname with hname | hname
  · exact List.infix_append_of_infix_left (hfirst hname)
  · exact List.infix_append_of_infix_right (hothers hname)

mutual

/-- **A phrase that refers to something by the name of a keyword type applies that name.** -/
theorem UnionPhrase.applied {ts : List Token} {e : TypeExpr} (h : UnionPhrase ts e)
    (hkeyword : name ∈ keywordNames) (hname : name ∈ e.references) : Applied name ts := by
  match h with
  | .plain hpost hvariants hjoined =>
    have hsome := hjoined.exists_mem_references hname
    exact applied_append hsome (hpost.applied hkeyword) (hvariants.applied hkeyword)
  | .leadingBar hpost hvariants hjoined =>
    have hsome := hjoined.exists_mem_references hname
    exact List.infix_cons
      (applied_append hsome (hpost.applied hkeyword) (hvariants.applied hkeyword))
termination_by structural h

theorem FurtherVariants.applied {ts : List Token} {vs : List TypeExpr} (h : FurtherVariants ts vs)
    (hkeyword : name ∈ keywordNames) (hname : ∃ v ∈ vs, name ∈ v.references) :
    Applied name ts := by
  match h with
  | .none =>
    obtain ⟨v, hv, -⟩ := hname
    cases hv
  | .more hpost hvariants =>
    exact List.infix_cons
      (applied_append hname (hpost.applied hkeyword) (hvariants.applied hkeyword))
termination_by structural h

theorem PostfixPhrase.applied {ts : List Token} {e : TypeExpr} (h : PostfixPhrase ts e)
    (hkeyword : name ∈ keywordNames) (hname : name ∈ e.references) : Applied name ts := by
  match h with
  | .primary hprimary => exact hprimary.applied hkeyword hname
  | .array hpost => exact List.infix_append_of_infix_left (hpost.applied hkeyword hname)
termination_by structural h

theorem PrimaryPhrase.applied {ts : List Token} {e : TypeExpr} (h : PrimaryPhrase ts e)
    (hkeyword : name ∈ keywordNames) (hname : name ∈ e.references) : Applied name ts := by
  match h with
  | .group hunion =>
    exact List.infix_cons (List.infix_append_of_infix_left (hunion.applied hkeyword hname))
  | .bare hnamed =>
    rcases hnamed.exists_mem_references hname with ⟨rfl, harguments⟩ | ⟨argument, hmem, -⟩
    · exact absurd rfl (harguments hkeyword)
    · cases hmem
  | .generic hunion hmore hnamed =>
    rcases hnamed.exists_mem_references hname with ⟨rfl, -⟩ | hname
    · exact List.infix_append_left
    · -- The arguments stand behind the name and the bracket, and before another bracket.
      refine List.infix_cons (List.infix_cons ?_)
      refine applied_append hname (hunion.applied hkeyword) fun hname => ?_
      exact List.infix_append_of_infix_left (hmore.applied hkeyword hname)
termination_by structural h

theorem FurtherArguments.applied {ts : List Token} {as : List TypeExpr}
    (h : FurtherArguments ts as) (hkeyword : name ∈ keywordNames)
    (hname : ∃ a ∈ as, name ∈ a.references) : Applied name ts := by
  match h with
  | .none =>
    obtain ⟨a, ha, -⟩ := hname
    cases ha
  | .more hunion hmore =>
    exact List.infix_cons (applied_append hname (hunion.applied hkeyword) (hmore.applied hkeyword))
termination_by structural h

end

/-! ## What handlers refer to -/

/-- A type without its missing values refers to nothing else than the type. -/
theorem mem_references_of_nonNullable (h : name ∈ e.nonNullable.references) :
    name ∈ e.references := by
  cases e with
  | union variants =>
    rw [nonNullable_union] at h
    split at h
    · next only honly =>
      have hmem : only ∈ variants.filter (!·.isNullish) := by
        rw [honly]
        exact List.mem_singleton_self only
      rw [references, referencesAll_eq_flatMap]
      exact List.mem_flatMap_of_mem (List.mem_filter.1 hmem).1 h
    · exact h
  | _ => exact h

/-- The type that a plain field refers to is among those that its type refers to. -/
theorem mem_references_of_objectTarget? (h : e.objectTarget? = some name) :
    name ∈ e.references := by
  rw [objectTarget?] at h
  apply mem_references_of_nonNullable
  cases hleft : e.nonNullable with
  | reference other =>
    rw [hleft] at h
    exact List.mem_singleton.2 (Option.some.inj h).symm
  | _ =>
    rw [hleft] at h
    cases h

end TypeExpr

namespace Handler

/-- A built-in handler leads only to names that the type of the declaration refers to. -/
theorem mem_references_of_targets {handler : Handler} (hh : handler ∈ defaults) {d : Declaration}
    {target : String} (ht : handler.Targets d target) : target ∈ d.type.references := by
  simp only [defaults, List.mem_cons, List.not_mem_nil, or_false] at hh
  rcases hh with rfl | rfl | rfl
  · have harray : d.type.arrayTarget? = some target := targets_ofTarget.1 ht
    rw [TypeExpr.arrayTarget?] at harray
    split at harray
    · next element hleft =>
      apply TypeExpr.mem_references_of_nonNullable
      rw [hleft, TypeExpr.references]
      exact TypeExpr.mem_references_of_objectTarget? harray
    · cases harray
  · have hrecord : d.type.recordTarget? = some target := targets_ofTarget.1 ht
    rw [TypeExpr.recordTarget?] at hrecord
    split at hrecord
    · next key value hleft =>
      apply TypeExpr.mem_references_of_nonNullable
      rw [hleft, TypeExpr.references]
      exact List.mem_append_right _ (TypeExpr.mem_references_of_objectTarget? hrecord)
    · cases hrecord
  · exact TypeExpr.mem_references_of_objectTarget? (targets_ofTarget.1 ht)

end Handler

/-! ## What a schema text writes -/

/-- What stands in the second of two rows stands there for something in the first. -/
theorem exists_mem_of_forall₂ {α β : Type} {R : α → β → Prop} {xs : List α} {ys : List β}
    (h : List.Forall₂ R xs ys) {y : β} (hy : y ∈ ys) : ∃ x ∈ xs, R x y := by
  induction h with
  | nil => cases hy
  | @cons x _ _ _ hxy _ ih =>
    rcases List.mem_cons.1 hy with rfl | hy
    · exact ⟨x, List.mem_cons_self, hxy⟩
    · obtain ⟨x', hx', hR⟩ := ih hy
      exact ⟨x', List.mem_cons_of_mem x hx', hR⟩

namespace Schema

variable {s : Schema} {text origin owner : String} {d : Declaration}

/-- The text of a schema declares a property of a type, with some tokens as the property's type. -/
def WrittenAs (text owner : String) (d : Declaration) (ts : List TypeExpr.Token) : Prop :=
  ∃ file t m, Toml.readAs SchemaFile.ofEntries text = .ok file ∧ (owner, t) ∈ file.types.entries ∧
    m ∈ t.listed ∧ m.States (.declared d) ∧ TypeExpr.lex m.type = some ts

/-- **The type of a property is one that the text of the schema writes.** -/
theorem exists_writtenAs (hs : Schema.parse text origin = .ok s) (hd : s.Declares owner d) :
    ∃ ts, WrittenAs text owner d ts := by
  rw [Schema.parse] at hs
  split at hs
  · cases hs
  · next file hfile =>
    obtain ⟨-, hentries⟩ := SchemaFile.resolve_eq_ok_iff.1 hs
    obtain ⟨members, hdefined, hproperty⟩ := hd
    obtain ⟨-, x, hx, hdeclares⟩ := Member.mem_properties.1 hproperty
    -- The struct is that of an entry of the file, and its member that of an entry in there.
    obtain ⟨entry, hentry, hname⟩ := Option.map_eq_some_iff.1 hdefined
    have hmem := List.mem_of_find?_eq_some hentry
    obtain rfl : entry.1 = owner := by simpa using List.find?_some hentry
    obtain ⟨⟨owner, t⟩, ht, rfl, hstates⟩ := exists_mem_of_forall₂ hentries hmem
    rw [hname] at hstates
    obtain ⟨m, hm, type, htype, rfl⟩ := exists_mem_of_forall₂ hstates.2 hx
    obtain rfl := Option.some.inj hdeclares
    obtain ⟨ts, hlex, -⟩ := TypeExpr.parse_eq_ok_iff.1 (readType_eq_ok_iff.1 htype)
    exact ⟨ts, file, t, m, hfile, ht, hm, ⟨type, htype, rfl⟩, hlex⟩

/-- The tokens of a type that refers to something by the name of a keyword type apply that name. -/
theorem WrittenAs.applied {ts : List TypeExpr.Token} (h : WrittenAs text owner d ts)
    {name : String} (hkeyword : name ∈ keywordNames) (hname : name ∈ d.type.references) :
    TypeExpr.Applied name ts := by
  obtain ⟨file, t, m, -, -, -, ⟨type, htype, hd⟩, hlex⟩ := h
  obtain ⟨ts', hlex', hphrase⟩ := TypeExpr.parse_eq_ok_iff.1 (readType_eq_ok_iff.1 htype)
  obtain rfl : ts = ts' := Option.some.inj (hlex.symm.trans hlex')
  obtain rfl : d.type = type := by
    obtain ⟨-, hd⟩ := Member.mk.inj hd
    rw [Option.some.inj hd]
  exact hphrase.applied hkeyword hname

/-! ## Names that are looked up -/

/-- The names that are looked up for the tree of a root type: that of the root, and those that a
handler leads to from a property of a struct that the tree reaches. -/
inductive LookedUp (s : Schema) (handlers : List Handler) (root : String) : String → Prop where
  | root : LookedUp s handlers root root
  | field {owner target : String} {d : Declaration} {handler : Handler} :
      s.Reached handlers root owner → s.Declares owner d → handler ∈ handlers →
      handler.Targets d target → LookedUp s handlers root target

/-- The structs that a tree reaches are the first ones that the names looked up for it stand
for. -/
theorem reached_iff_lookedUp {handlers : List Handler} {root symbol : String} :
    s.Reached handlers root symbol ↔
      ∃ name, s.LookedUp handlers root name ∧ (s.symbols name).head? = some symbol := by
  constructor
  · intro h
    cases h with
    | root hsymbol => exact ⟨root, .root, hsymbol⟩
    | field howner hd hh ht hsymbol => exact ⟨_, .field howner hd hh ht, hsymbol⟩
  · rintro ⟨name, hname, hsymbol⟩
    cases hname with
    | root => exact .root hsymbol
    | field howner hd hh ht => exact .field howner hd hh ht hsymbol

theorem Declares.isStruct (h : s.Declares owner d) : s.IsStruct owner := by
  obtain ⟨members, hdefined, -⟩ := h
  exact ⟨members, hdefined⟩

end Schema

/-! ## The children in a tree -/

/-- The nodes of an arena that are children of some node are all but the root. -/
theorem Arena.Linked.exists_mem_children_iff {α : Type} {a : Arena α} {c : Handle}
    (ha : a.Linked) (hc : a.contains c = true) : (∃ h, c ∈ a.children h) ↔ c ≠ a.root := by
  simp only [ha.agree]
  rw [← Option.ne_none_iff_exists', ne_eq, ne_eq, ha.orphan c hc]

namespace Decomposition

variable {s : Schema} {text origin root : String} {handlers : List Handler}
  {maxDepth : Option Nat} {a : Arena Node}

/-- Some node has children that belong to a struct exactly if the tree reaches the struct and it
has properties. -/
theorem exists_child_iff (hb : ∀ handler ∈ handlers, handler ∈ Handler.defaults)
    (ha : ((ofSchema s handlers maxDepth).tree (.root root)).outcome = .ok a) {owner : String} :
    (∃ h c x, c ∈ a.children h ∧ a.value? c = some x ∧ x.owner = some owner) ↔
      s.Reached handlers root owner ∧ ∃ d, s.Declares owner d := by
  obtain ⟨t, hunfold, rfl⟩ := tree_eq_ok.1 ha
  obtain ⟨hroot, ht, -⟩ := Rose.unfold_eq_ok.1 hunfold
  obtain ⟨hfields, hproperties⟩ := mem_tail_preorder_fields hb ht hroot
  have hlinked := Arena.linked_ofTree 0 t
  constructor
  · rintro ⟨h, c, x, hc, hx, howner⟩
    have hne := (hlinked.exists_mem_children_iff (Arena.contains_of_value? hx)).1 ⟨h, hc⟩
    obtain ⟨-, owner', d, hreached, hd, howner', -⟩ :=
      hfields x ((Arena.exists_value?_ofTree_iff 0 t).1 ⟨c, hne, hx⟩)
    obtain rfl : owner = owner' := Option.some.inj (howner.symm.trans howner')
    exact ⟨hreached, d, hd⟩
  · rintro ⟨hreached, d, hd⟩
    obtain ⟨x, hx, howner, -⟩ := hproperties owner d hreached hd
    obtain ⟨c, hne, hvalue⟩ := (Arena.exists_value?_ofTree_iff 0 t).2 hx
    obtain ⟨h, hc⟩ :=
      (hlinked.exists_mem_children_iff (Arena.contains_of_value? hvalue)).2 hne
    exact ⟨h, c, x, hc, hvalue, howner⟩

/-- **A scalar decomposes where its name is applied or a union lists it, and nowhere else.**  Some
node of a tree, whose root is not called as a keyword type, has children that belong to a keyword
type's name exactly if the schema defines a struct with properties under that name, and either a
handler leads to the name from a property of a reached struct, which the text of the schema writes
with the name before type arguments, or the name is the first struct that a name looked up stands
for, by way of a union that lists it. -/
theorem scalar_children_iff (hs : Schema.parse text origin = .ok s) (hroot : root ∉ keywordNames)
    (hb : ∀ handler ∈ handlers, handler ∈ Handler.defaults)
    (ha : ((ofSchema s handlers maxDepth).tree (.root root)).outcome = .ok a) {scalar : String}
    (hscalar : scalar ∈ keywordNames) :
    (∃ h c x, c ∈ a.children h ∧ a.value? c = some x ∧ x.owner = some scalar) ↔
      (∃ d, s.Declares scalar d) ∧
      ((∃ owner d handler ts, s.Reached handlers root owner ∧ s.Declares owner d ∧
          handler ∈ handlers ∧ handler.Targets d scalar ∧ Schema.WrittenAs text owner d ts ∧
          TypeExpr.Applied scalar ts) ∨
        ∃ name union, s.LookedUp handlers root name ∧
          (s.symbols name).head? = some scalar ∧ s.Leads name union ∧ s.Refers union scalar) := by
  rw [exists_child_iff hb ha, Schema.reached_iff_lookedUp]
  constructor
  · rintro ⟨⟨name, hlooked, hsymbol⟩, hdeclares⟩
    refine ⟨hdeclares, ?_⟩
    obtain ⟨-, hleads⟩ := Schema.mem_symbols_iff.1 (List.mem_of_head? hsymbol)
    rcases hleads.cases_tail with rfl | ⟨union, hunion, hrefers⟩
    · -- The name itself is looked up, and it is not that of the root.
      cases hlooked with
      | root => exact absurd hscalar hroot
      | @field owner _ d handler hreached hd hh ht =>
        obtain ⟨ts, hwritten⟩ := Schema.exists_writtenAs hs hd
        have hname := Handler.mem_references_of_targets (hb handler hh) ht
        exact .inl ⟨owner, d, handler, ts, hreached, hd, hh, ht, hwritten,
          hwritten.applied hscalar hname⟩
    · exact .inr ⟨name, union, hlooked, hsymbol, hunion, hrefers⟩
  · rintro ⟨⟨d, hd⟩, hroute⟩
    refine ⟨?_, d, hd⟩
    rcases hroute with ⟨owner, d', handler, ts, hreached, hd', hh, ht, -⟩ |
      ⟨name, union, hlooked, hsymbol, -⟩
    · exact ⟨scalar, .field hreached hd' hh ht, by rw [hd.isStruct.symbols_eq]; rfl⟩
    · exact ⟨name, hlooked, hsymbol⟩

/-- A schema of tags, with structs under the names of two keyword types: one is applied, the other
is the variant of a union. -/
def tagText : String :=
  "[types]
Tag.members = [['label', 'string<A>'], ['key', 'Key'], ['note', 'string']]
Key.union = ['number']
string.members = [['length', 'bigint']]
number.members = [['digits', 'string']]"

/-- A property whose type is written as the name of a keyword type with an argument. -/
def tagLabel : Declaration := ⟨"label", .property, .reference "string", false⟩

/-- A property whose type is a union that lists the name of a keyword type. -/
def tagKey : Declaration := ⟨"key", .property, .reference "Key", false⟩

/-- A property whose type is a keyword type. -/
def tagNote : Declaration := ⟨"note", .property, .keyword "string", false⟩

/-- A property of what is defined as `string`. -/
def stringLength : Declaration := ⟨"length", .property, .keyword "bigint", false⟩

/-- A property of what is defined as `number`. -/
def numberDigits : Declaration := ⟨"digits", .property, .keyword "string", false⟩

/-- The node of a tag's label. -/
def labelNode : Node := ⟨.object, "label", some "Tag", some tagLabel, some "string"⟩

/-- The node of a tag's key. -/
def keyNode : Node := ⟨.object, "key", some "Tag", some tagKey, some "Key"⟩

/-- The tree of a tag: below its label and its key stand properties of `string` and `number`, and
below its note stands nothing. -/
def tagTree : Rose Node :=
  .node (.root "Tag")
    [.node labelNode [.node ⟨.terminal, "length", some "string", some stringLength, none⟩ []],
     .node keyNode [.node ⟨.terminal, "digits", some "number", some numberDigits, none⟩ []],
     .node ⟨.terminal, "note", some "Tag", some tagNote, none⟩ []]

theorem exists_tag : ∃ s, Schema.parse tagText "tag.toml" = .ok s ∧
    s.definition? "Tag" = some (.struct [.declared tagLabel, .declared tagKey, .declared tagNote]) ∧
    s.definition? "Key" = some (.union ["number"]) ∧
    s.definition? "string" = some (.struct [.declared stringLength]) ∧
    s.definition? "number" = some (.struct [.declared numberDigits]) ∧
    s.definition? "bigint" = none := by
  have hsays : (Schema.parse tagText "tag.toml").toOption.map (·.types.entries)
      = some [("Key", .union ["number"]),
        ("Tag", .struct [.declared tagLabel, .declared tagKey, .declared tagNote]),
        ("number", .struct [.declared numberDigits]),
        ("string", .struct [.declared stringLength])] := by decide +kernel
  obtain ⟨s, hs, hentries⟩ := Option.map_eq_some_iff.1 hsays
  refine ⟨s, eq_ok_of_toOption hs, ?_⟩
  simp only [Schema.definition?, NameMap.find?, hentries]
  decide

theorem symbols_key {s : Schema} {members : List Member}
    (hkey : s.definition? "Key" = some (.union ["number"]))
    (hnumber : s.definition? "number" = some (.struct members)) :
    s.symbols "Key" = ["number"] := by
  rw [Schema.symbols, Schema.reach_of_union List.not_mem_nil hkey, List.append_nil,
    Schema.reach_of_struct (by decide) hnumber, Schema.reach_nil]

theorem tree_tag {s : Schema}
    (htag : s.definition? "Tag"
      = some (.struct [.declared tagLabel, .declared tagKey, .declared tagNote]))
    (hkey : s.definition? "Key" = some (.union ["number"]))
    (hstring : s.definition? "string" = some (.struct [.declared stringLength]))
    (hnumber : s.definition? "number" = some (.struct [.declared numberDigits])) :
    ((ofSchema s Handler.defaults (some 2)).tree (.root "Tag")).outcome
      = .ok (.ofTree 0 tagTree) := by
  have hroot : s.symbols "Tag" = ["Tag"] := Schema.IsStruct.symbols_eq ⟨_, htag⟩
  have hlabel : s.symbols "string" = ["string"] := Schema.IsStruct.symbols_eq ⟨_, hstring⟩
  have hvariant : s.symbols "Key" = ["number"] := symbols_key hkey hnumber
  have hunfold : Rose.unfold (ofSchema s Handler.defaults (some 2)).offspring 2 (.root "Tag")
      = .ok tagTree := by
    refine Rose.unfold_eq_ok.2 ⟨rfl, ?_, by decide⟩
    refine .node ?_ (List.forall_mem_cons.2 ⟨?_, List.forall_mem_cons.2 ⟨?_,
      List.forall_mem_singleton.2 ?_⟩⟩)
    · rw [offspring_of_struct (x := .root "Tag") hroot htag]
      rfl
    · refine .node ?_ (List.forall_mem_singleton.2 (.node ?_ (List.forall_mem_nil _)))
      · rw [offspring_of_struct (x := labelNode) hlabel hstring]
        rfl
      · rw [offspring_of_no_struct rfl]
        rfl
    · refine .node ?_ (List.forall_mem_singleton.2 (.node ?_ (List.forall_mem_nil _)))
      · rw [offspring_of_struct (x := keyNode) hvariant hnumber]
        rfl
      · rw [offspring_of_no_struct rfl]
        rfl
    · refine .node ?_ (List.forall_mem_nil _)
      rw [offspring_of_no_struct rfl]
      rfl
  exact tree_eq_ok.2 ⟨_, hunfold, rfl⟩

/-- The label of a tag is written as `string<A>` and its key is a union of `number`, so both
keyword types decompose; no struct has the name of a third one. -/
theorem scalar_children_iff_tag : ∃ s a, Schema.parse tagText "tag.toml" = .ok s ∧
    "Tag" ∉ keywordNames ∧ (∀ handler ∈ Handler.defaults, handler ∈ Handler.defaults) ∧
    ((ofSchema s Handler.defaults (some 2)).tree (.root "Tag")).outcome = .ok a ∧
    (∀ scalar ∈ ["string", "number", "bigint"], scalar ∈ keywordNames) ∧
    (∃ h c x, c ∈ a.children h ∧ a.value? c = some x ∧ x.owner = some "string") ∧
    (∃ h c x, c ∈ a.children h ∧ a.value? c = some x ∧ x.owner = some "number") ∧
    ¬∃ h c x, c ∈ a.children h ∧ a.value? c = some x ∧ x.owner = some "bigint" := by
  obtain ⟨s, hs, htag, hkey, hstring, hnumber, hbigint⟩ := exists_tag
  have htree := tree_tag htag hkey hstring hnumber
  have hiff {scalar : String} (hscalar : scalar ∈ keywordNames) :=
    scalar_children_iff hs (by decide : "Tag" ∉ keywordNames) (fun _ h => h) htree hscalar
  have hroot : s.Reached Handler.defaults "Tag" "Tag" :=
    .root (by rw [Schema.IsStruct.symbols_eq ⟨_, htag⟩]; rfl)
  have hobject : Handler.object ∈ Handler.defaults := by simp [Handler.defaults]
  refine ⟨s, _, hs, by decide, fun _ h => h, htree, by decide, ?_, ?_, ?_⟩
  · have hlabel : s.Declares "Tag" tagLabel := ⟨_, htag, by decide⟩
    have htarget : Handler.object.Targets tagLabel "string" := Handler.targets_ofTarget.2 rfl
    obtain ⟨ts, hwritten⟩ := Schema.exists_writtenAs hs hlabel
    have happlied : TypeExpr.Applied "string" ts := hwritten.applied (by decide) (by decide)
    exact (hiff (by decide)).2 ⟨⟨stringLength, _, hstring, by decide⟩, .inl ⟨"Tag", tagLabel,
      Handler.object, ts, hroot, hlabel, hobject, htarget, hwritten, happlied⟩⟩
  · have hdeclared : s.Declares "Tag" tagKey := ⟨_, htag, by decide⟩
    have htarget : Handler.object.Targets tagKey "Key" := Handler.targets_ofTarget.2 rfl
    have hfirst : (s.symbols "Key").head? = some "number" := by
      rw [symbols_key hkey hnumber]
      rfl
    exact (hiff (by decide)).2 ⟨⟨numberDigits, _, hnumber, by decide⟩, .inr ⟨"Key", "Key",
      .field hroot hdeclared hobject htarget, hfirst, .refl, _, hkey, by decide⟩⟩
  · rw [hiff (by decide)]
    rintro ⟨⟨d, members, hdefined, -⟩, -⟩
    rw [hbigint] at hdefined
    cases hdefined

/-- A tag's label has a child that belongs to `string`, which is the name of a keyword type.  The
note of the same tag, whose type is that keyword type, has no children. -/
theorem exists_child_of_scalar : ∃ s a, Schema.parse tagText "tag.toml" = .ok s ∧
    "Tag" ∉ keywordNames ∧
    ((ofSchema s Handler.defaults (some 2)).tree (.root "Tag")).outcome = .ok a ∧
    (∃ h c x, c ∈ a.children h ∧ a.value? c = some x ∧ x.owner = some "string") ∧
    "string" ∈ keywordNames ∧
    ∃ h x, a.value? h = some x ∧ x.declaration = some tagNote ∧ tagNote.type = .keyword "string" ∧
      a.children h = [] := by
  obtain ⟨s, hs, htag, hkey, hstring, hnumber, -⟩ := exists_tag
  refine ⟨s, _, hs, by decide, tree_tag htag hkey hstring hnumber, ?_, by decide, ?_⟩
  · exact ⟨⟨0, 1⟩, ⟨0, 2⟩, ⟨.terminal, "length", some "string", some stringLength, none⟩,
      by decide +kernel, by decide +kernel, rfl⟩
  · exact ⟨⟨0, 5⟩, ⟨.terminal, "note", some "Tag", some tagNote, none⟩, by decide +kernel, rfl, rfl,
      by decide +kernel⟩

end Decomposition

end FieldTree
