/-
# Unions directly in unions

The notation keeps a union in brackets that is a variant of another union, although both forms
display alike.  The built-in handlers look through the missing values of a type, and once more
through those of the elements of an array or of the values of a map, but each time at the variants
of one union only: where one of these is a union itself, nothing is recognised.

* `TypeExpr.flat` : the type in which such variants are spliced into the outer union;
* `TypeExpr.nonNullable_flat` : splicing does not matter where nothing is to be spliced;
* `TypeExpr.isUnion_nonNullable` : a union in a union stays one without its missing values;
* `TypeExpr.flat_eq_of_text_eq` : types that display alike splice alike;
* `Handler.recognition_flat` : a handler sees a type as the spliced one exactly if it looks through
  no union in a union, or finds nothing in the spliced one either.
-/
import FieldTree.Proofs.Chains
import FieldTree.Proofs.Normal

namespace FieldTree

namespace TypeExpr

variable {e : TypeExpr} {variants : List TypeExpr}

/-! ## Splicing -/

mutual

/-- The type in which the variants of a union directly in a union are variants of the outer one, at
every level. -/
def flat : TypeExpr → TypeExpr
  | .keyword name => .keyword name
  | .reference name => .reference name
  | .array element => .array (flat element)
  | .map key value => .map (flat key) (flat value)
  | .union variants => .union (flatAll variants)

/-- The variants with unions spliced, and for a union among them its own variants. -/
def flatAll : List TypeExpr → List TypeExpr
  | [] => []
  | v :: rest => (flat v).alternatives ++ flatAll rest

end

/-- Whether a union is directly in the union that a type is. -/
def nests (e : TypeExpr) : Bool := e.alternatives.any isUnion

theorem isUnion_iff : e.isUnion = true ↔ ∃ variants, e = .union variants := by
  cases e <;> simp [isUnion]

theorem isUnion_flat (e : TypeExpr) : e.flat.isUnion = e.isUnion := by
  cases e <;> simp only [flat, isUnion]

theorem isNullish_iff : e.isNullish = true ↔ e = .keyword "null" ∨ e = .keyword "undefined" := by
  rw [isNullish, Bool.or_eq_true, beq_iff_eq, beq_iff_eq]

theorem isNullish_flat (e : TypeExpr) : e.flat.isNullish = e.isNullish := by
  rw [Bool.eq_iff_iff, isNullish_iff, isNullish_iff]
  cases e <;> simp only [flat, reduceCtorEq]

theorem referenceName?_flat (e : TypeExpr) : e.flat.referenceName? = e.referenceName? := by
  cases e <;> simp only [flat, referenceName?]

/-- Where no variant is a union every variant stays in its place. -/
theorem flatAll_eq_map (h : ∀ v ∈ variants, v.isUnion = false) :
    flatAll variants = variants.map flat := by
  induction variants with
  | nil => rfl
  | cons v rest ih =>
    rw [List.forall_mem_cons] at h
    rw [flatAll, ih h.2, alternatives_of_not_isUnion (by rw [isUnion_flat, h.1])]
    rfl

/-! ## Missing values -/

/-- A union without its missing values is the variant that is left, if it is one. -/
theorem nonNullable_union (variants : List TypeExpr) :
    (union variants).nonNullable = match variants.filter (!·.isNullish) with
      | [only] => only
      | _ => .union variants := rfl

/-- Splicing does not matter for what is left without missing values where nothing is to be
spliced. -/
theorem nonNullable_flat (h : e.nests = false) : e.flat.nonNullable = e.nonNullable.flat := by
  cases hunion : e.isUnion with
  | false =>
    rw [nonNullable_of_not_isUnion hunion,
      nonNullable_of_not_isUnion ((isUnion_flat e).trans hunion)]
  | true =>
    obtain ⟨variants, rfl⟩ := isUnion_iff.1 hunion
    have hvariants : ∀ v ∈ variants, v.isUnion = false := by
      simpa [nests, alternatives] using h
    have hfilter : (variants.map flat).filter (!·.isNullish)
        = (variants.filter (!·.isNullish)).map flat := by
      rw [List.filter_map]
      congr 2
      funext v
      exact congrArg Bool.not (isNullish_flat v)
    rw [flat, flatAll_eq_map hvariants, nonNullable_union, nonNullable_union, hfilter]
    -- What is left of the variants decides: one of them, or the whole union.
    generalize variants.filter (!·.isNullish) = kept
    rcases kept with _ | ⟨only, _ | ⟨second, rest⟩⟩
    · exact congrArg union (flatAll_eq_map hvariants).symm
    · rfl
    · exact congrArg union (flatAll_eq_map hvariants).symm

/-- A union in a union is no missing value, so without missing values a union is left. -/
theorem isUnion_nonNullable (h : e.nests = true) : e.nonNullable.isUnion = true := by
  cases e with
  | union variants =>
    obtain ⟨v, hv, hunion⟩ := List.any_eq_true.1 h
    have hkept : v ∈ variants.filter (!·.isNullish) := by
      refine List.mem_filter.2 ⟨hv, ?_⟩
      rw [Bool.not_eq_true', Bool.eq_false_iff, ne_eq, isNullish_iff]
      rintro (rfl | rfl) <;> cases hunion
    rw [nonNullable_union]
    split
    · next only honly =>
      rw [honly, List.mem_singleton] at hkept
      rwa [← hkept]
    · rfl
  | _ => cases h

/-- The name that is left without missing values is that of the spliced type, unless a union is
directly in the union. -/
theorem referenceName?_nonNullable (e : TypeExpr) :
    e.nonNullable.referenceName?
      = if e.nests then none else e.flat.nonNullable.referenceName? := by
  cases hnests : e.nests with
  | false => rw [nonNullable_flat hnests, referenceName?_flat, if_neg Bool.false_ne_true]
  | true =>
    obtain ⟨variants, hleft⟩ := isUnion_iff.1 (isUnion_nonNullable hnests)
    rw [hleft, if_pos rfl]
    rfl

/-! ## What handlers look through -/

/-- What an array holds as elements, or a map as values. -/
def content : TypeExpr → List TypeExpr
  | .array element => [element]
  | .map _ value => [value]
  | _ => []

/-- The types whose missing values the built-in handlers look through: the type itself, and what is
held by what is left of it. -/
def lookedThrough (e : TypeExpr) : List TypeExpr := e :: e.nonNullable.content

/-- Whether one of these has a union directly in a union. -/
def obscured (e : TypeExpr) : Bool := e.lookedThrough.any nests

/-- What is found in what is left without missing values, for a shape that no union has: nothing if
the type is obscured, and otherwise what is found for the spliced type. -/
theorem shape_nonNullable (shape : TypeExpr → Option String)
    (hunion : ∀ variants, shape (.union variants) = none)
    (hcontent : ∀ e, e.isUnion = false →
      shape e = if e.content.any nests then none else shape e.flat) (e : TypeExpr) :
    shape e.nonNullable = if e.obscured then none else shape e.flat.nonNullable := by
  rw [obscured, lookedThrough, List.any_cons]
  cases hnests : e.nests with
  | true =>
    obtain ⟨variants, hleft⟩ := isUnion_iff.1 (isUnion_nonNullable hnests)
    rw [hleft, hunion, Bool.true_or, if_pos rfl]
  | false =>
    rw [nonNullable_flat hnests, Bool.false_or]
    cases hleft : e.nonNullable with
    | union variants => simp only [hunion, flat, ite_self]
    | _ => exact hcontent _ rfl

theorem objectTarget?_eq (e : TypeExpr) :
    e.objectTarget? = if e.obscured then none else e.flat.objectTarget? := by
  refine shape_nonNullable referenceName? (fun _ => rfl) (fun left _ => ?_) e
  cases left <;> simp [content, flat, referenceName?]

/-- The name that the elements of an array refer to. -/
def elementName? : TypeExpr → Option String
  | .array element => element.nonNullable.referenceName?
  | _ => none

theorem arrayTarget?_eq (e : TypeExpr) :
    e.arrayTarget? = if e.obscured then none else e.flat.arrayTarget? := by
  refine shape_nonNullable elementName? (fun _ => rfl) (fun left _ => ?_) e
  cases left with
  | array element =>
    rw [content, List.any_cons, List.any_nil, Bool.or_false, flat]
    exact referenceName?_nonNullable element
  | _ => simp [content, flat, elementName?]

/-- The name that the values of a map refer to. -/
def valueName? : TypeExpr → Option String
  | .map _ value => value.nonNullable.referenceName?
  | _ => none

theorem recordTarget?_eq (e : TypeExpr) :
    e.recordTarget? = if e.obscured then none else e.flat.recordTarget? := by
  refine shape_nonNullable valueName? (fun _ => rfl) (fun left _ => ?_) e
  cases left with
  | map key value =>
    rw [content, List.any_cons, List.any_nil, Bool.or_false, flat]
    exact referenceName?_nonNullable value
  | _ => simp [content, flat, valueName?]

/-! ## Types with the same text -/

mutual

/-- The names that a type refers to, those of the keys of maps included. -/
def references : TypeExpr → List String
  | .keyword _ => []
  | .reference name => [name]
  | .array element => references element
  | .map key value => references key ++ references value
  | .union variants => referencesAll variants

/-- The names that variants refer to. -/
def referencesAll : List TypeExpr → List String
  | [] => []
  | v :: rest => references v ++ referencesAll rest

end

theorem referencesAll_eq_flatMap (variants : List TypeExpr) :
    referencesAll variants = variants.flatMap references := by
  induction variants with
  | nil => rfl
  | cons v rest ih => rw [referencesAll, ih, List.flatMap_cons]

theorem flatAll_eq_flatMap (variants : List TypeExpr) :
    flatAll variants = variants.flatMap fun v => v.flat.alternatives := by
  induction variants with
  | nil => rfl
  | cons v rest ih => rw [flatAll, ih, List.flatMap_cons]

/-- The normal form only splices where no reference is called as a keyword type. -/
theorem norm_eq_flat (h : ∀ name ∈ e.references, name ∉ keywordNames) : e.norm = e.flat := by
  induction e with
  | keyword name => rw [norm, flat]
  | reference name => rw [norm, flat, if_neg (h name List.mem_cons_self)]
  | array element ih => rw [norm, flat, ih h]
  | map key value ihKey ihValue =>
    rw [references, List.forall_mem_append] at h
    rw [norm, flat, ihKey h.1, ihValue h.2]
  | union variants ih =>
    rw [references, referencesAll_eq_flatMap] at h
    rw [norm, flat, normAll_eq_flatMap, flatAll_eq_flatMap]
    refine congrArg union (List.flatMap_congr fun v hv => ?_)
    rw [ih v hv fun name hname => h name (List.mem_flatMap_of_mem hv hname)]

/-- **Types that display alike splice alike**, if they can be read and no reference in them is
called as a keyword type. -/
theorem flat_eq_of_text_eq {e e' : TypeExpr} (he : Written e) (he' : Written e')
    (hnames : ∀ name ∈ e.references, name ∉ keywordNames)
    (hnames' : ∀ name ∈ e'.references, name ∉ keywordNames) (htext : e'.text = e.text) :
    e'.flat = e.flat := by
  rw [← norm_eq_flat hnames, ← norm_eq_flat hnames']
  -- One text is read as one normal form.
  have hread := he.parse_text
  rw [← htext, he'.parse_text] at hread
  exact Except.ok.inj hread

end TypeExpr

namespace Handler

variable {handler : Handler} {handlers : List Handler} {d d' : Declaration}

/-! ## Recognition -/

/-- What a built-in handler sees of a declaration: nothing if its type is obscured, and otherwise
what it sees of the spliced type. -/
theorem exists_target?_eq (hh : handler ∈ defaults) :
    ∃ name kind target?, handler = ofTarget name kind target? ∧
      ∀ e : TypeExpr, target? e = if e.obscured then none else target? e.flat := by
  simp only [defaults, List.mem_cons, List.not_mem_nil, or_false] at hh
  rcases hh with rfl | rfl | rfl
  · exact ⟨_, _, _, rfl, TypeExpr.arrayTarget?_eq⟩
  · exact ⟨_, _, _, rfl, TypeExpr.recordTarget?_eq⟩
  · exact ⟨_, _, _, rfl, TypeExpr.objectTarget?_eq⟩

/-- Whether a handler sees two declarations alike: it recognises both or none of them, and leads
from both to the same type. -/
def SeesAlike (handler : Handler) (d d' : Declaration) : Prop :=
  handler.recognizes d' = handler.recognizes d ∧
  ∀ ctx parent, (handler.create ctx parent d').target = (handler.create ctx parent d).target

theorem seesAlike_ofTarget {name : String} {kind : NodeKind}
    {target? : TypeExpr → Option String} :
    (ofTarget name kind target?).SeesAlike d d' ↔ target? d'.type = target? d.type := by
  constructor
  · intro h
    exact h.2 ⟨fun _ => [], fun _ => none, 0⟩ (.root "")
  · intro h
    exact ⟨congrArg Option.isSome h, fun _ _ => h⟩

/-- Handlers that see two declarations alike make nodes of one kind and target of them. -/
theorem node_of_seesAlike (hb : ∀ handler ∈ handlers, handler ∈ defaults)
    (halike : ∀ handler ∈ handlers, handler.SeesAlike d d') (ctx : Introspection)
    (parent : Node) :
    (node ctx handlers parent d').kind = (node ctx handlers parent d).kind ∧
    (node ctx handlers parent d').target = (node ctx handlers parent d).target := by
  have hfind : handlers.find? (·.recognizes d') = handlers.find? (·.recognizes d) :=
    List.find?_congr fun handler hmem => (halike handler hmem).1
  rw [node, node, hfind]
  cases hfound : handlers.find? (·.recognizes d) with
  | none => exact ⟨rfl, rfl⟩
  | some handler =>
    have hmem := List.mem_of_find?_eq_some hfound
    refine ⟨?_, (halike handler hmem).2 ctx parent⟩
    obtain ⟨name, kind, target?, rfl, -⟩ := exists_eq_ofTarget (hb handler hmem)
    rfl

/-- What a built-in handler recognises it sees as the spliced type. -/
theorem seesAlike_flat_iff (hh : handler ∈ defaults) :
    handler.SeesAlike d { d with type := d.type.flat } ↔
      (handler.recognizes { d with type := d.type.flat } = true → d.type.obscured = false) := by
  obtain ⟨name, kind, target?, rfl, htarget⟩ := exists_target?_eq hh
  rw [seesAlike_ofTarget, htarget d.type]
  cases d.type.obscured with
  | false => simp
  | true =>
    constructor
    · intro h hr
      rw [if_pos rfl] at h
      have hsome : (target? d.type.flat).isSome = true := hr
      rw [h] at hsome
      cases hsome
    · intro h
      rw [if_pos rfl]
      cases hflat : target? d.type.flat with
      | none => rfl
      | some target => cases h (Option.isSome_iff_exists.2 ⟨target, hflat⟩)

theorem obscured_of_recognizes (hh : handler ∈ defaults) (hr : handler.recognizes d = true) :
    d.type.obscured = false := by
  obtain ⟨name, kind, target?, rfl, htarget⟩ := exists_target?_eq hh
  have hsome : (target? d.type).isSome = true := hr
  rw [htarget] at hsome
  cases hobscured : d.type.obscured with
  | false => rfl
  | true =>
    rw [hobscured, if_pos rfl] at hsome
    cases hsome

/-- Declarations of types with the same text, neither of them obscured, are seen alike. -/
theorem seesAlike_of_flat_eq (hh : handler ∈ defaults) (hclear : d.type.obscured = false)
    (hclear' : d'.type.obscured = false) (hflat : d'.type.flat = d.type.flat) :
    handler.SeesAlike d d' := by
  obtain ⟨name, kind, target?, rfl, htarget⟩ := exists_target?_eq hh
  rw [seesAlike_ofTarget, htarget, htarget d.type, hclear, hclear', hflat]

/-- **Splicing a union into the union around it hides nothing from a handler, and a handler misses
what stands in such a union.**  A built-in handler that recognises a declaration sees it as that of
the spliced type.  It sees the two alike exactly if it recognises neither, or looks through no union
in a union.  Types that were read, refer to nothing by the name of a keyword type and display alike
are seen alike by each of the handlers, and become nodes of one kind and target, where the handlers
look through no union in a union. -/
theorem recognition_flat (d : Declaration) :
    (∀ handler ∈ [object, array, record],
      (handler.recognizes d = true → handler.SeesAlike d { d with type := d.type.flat }) ∧
      (handler.SeesAlike d { d with type := d.type.flat } ↔
        (handler.recognizes { d with type := d.type.flat } = true →
          ∀ e ∈ d.type.lookedThrough, e.nests = false))) ∧
    ∀ (text text' : String) (d' : Declaration),
      TypeExpr.parse text = .ok d.type → TypeExpr.parse text' = .ok d'.type →
      (∀ name ∈ d.type.references ++ d'.type.references, name ∉ keywordNames) →
      d'.type.text = d.type.text →
      (∀ e ∈ d.type.lookedThrough ++ d'.type.lookedThrough, e.nests = false) →
      (∀ handler ∈ [object, array, record], handler.SeesAlike d d') ∧
      ∀ handlers : List Handler, (∀ handler ∈ handlers, handler ∈ [object, array, record]) →
        ∀ ctx parent, (node ctx handlers parent d').kind = (node ctx handlers parent d).kind ∧
          (node ctx handlers parent d').target = (node ctx handlers parent d).target := by
  have hmem : ∀ handler ∈ [object, array, record], handler ∈ defaults := by
    simp [defaults]
  have hclear : ∀ e : TypeExpr, e.obscured = false ↔ ∀ x ∈ e.lookedThrough, x.nests = false := by
    simp [TypeExpr.obscured]
  refine ⟨?_, ?_⟩
  · intro handler hh
    rw [seesAlike_flat_iff (hmem handler hh), ← hclear]
    exact ⟨fun hr _ => obscured_of_recognizes (hmem handler hh) hr, Iff.rfl⟩
  · intro text text' d' hparse hparse' hnames htext hlooked
    rw [List.forall_mem_append] at hnames hlooked
    have hflat := TypeExpr.flat_eq_of_text_eq (TypeExpr.written_of_parse hparse)
      (TypeExpr.written_of_parse hparse') hnames.1 hnames.2 htext
    have halike : ∀ handler ∈ [object, array, record], handler.SeesAlike d d' := by
      intro handler hh
      exact seesAlike_of_flat_eq (hmem handler hh) ((hclear _).2 hlooked.1)
        ((hclear _).2 hlooked.2) hflat
    refine ⟨halike, ?_⟩
    intro handlers hb ctx parent
    exact node_of_seesAlike (fun handler h => hmem handler (hb handler h))
      (fun handler h => halike handler (hb handler h)) ctx parent

/-- The keys of a map are not looked through: brackets around a union in their union change
nothing. -/
theorem recognition_flat_keys :
    let keys := TypeExpr.union [.union [.keyword "string", .keyword "number"], .keyword "symbol"]
    let values := TypeExpr.union [.reference "User", .keyword "null"]
    let d : Declaration := ⟨"users", .property, .map keys values, false⟩
    let d' : Declaration := ⟨"users", .property, .map keys.flat values, false⟩
    record.recognizes d = true ∧ record.SeesAlike d { d with type := d.type.flat } ∧
    TypeExpr.parse "Record<(string | number) | symbol, User | null>" = .ok d.type ∧
    TypeExpr.parse "Record<string | number | symbol, User | null>" = .ok d'.type ∧
    record.SeesAlike d d' ∧
    (node ⟨fun _ => [], fun _ => none, 0⟩ defaults (.root "Team") d').kind
      = (node ⟨fun _ => [], fun _ => none, 0⟩ defaults (.root "Team") d).kind := by
  intro keys values d d'
  obtain ⟨hspliced, hsame⟩ := recognition_flat d
  have hr : record.recognizes d = true := by decide
  have hparse : TypeExpr.parse "Record<(string | number) | symbol, User | null>" = .ok d.type := by
    decide +kernel
  have hparse' : TypeExpr.parse "Record<string | number | symbol, User | null>" = .ok d'.type := by
    decide +kernel
  obtain ⟨halike, hnode⟩ := hsame _ _ d' hparse hparse' (by decide) (by decide) (by decide)
  exact ⟨hr, (hspliced record (by simp)).1 hr, hparse, hparse', halike record (by simp),
    (hnode defaults (by simp [defaults]) _ _).1⟩

/-- Of two types that display as `User | null | undefined`, the one that was read with brackets is
not recognised as a reference to `User`. -/
theorem not_seesAlike_nested :
    let e := TypeExpr.union [.union [.reference "User", .keyword "null"], .keyword "undefined"]
    let d : Declaration := ⟨"owner", .property, e, false⟩
    let d' : Declaration := ⟨"owner", .property, e.flat, false⟩
    let ctx : Introspection := ⟨fun _ => [], fun _ => none, 0⟩
    TypeExpr.parse "(User | null) | undefined" = .ok e ∧
    TypeExpr.parse "User | null | undefined" = .ok e.flat ∧
    (∀ name ∈ e.references, name ∉ keywordNames) ∧ e.flat.text = e.text ∧
    object.recognizes d = false ∧ object.recognizes d' = true ∧
    (object.create ctx (.root "Team") d).target = none ∧
    (object.create ctx (.root "Team") d').target = some "User" ∧
    (node ctx defaults (.root "Team") d).kind = .terminal ∧
    (node ctx defaults (.root "Team") d').kind = .object := by
  decide +kernel

end Handler

end FieldTree
