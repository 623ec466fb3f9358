/-
# The types that some text is read as

A type is read from some text exactly if each of its parts can be written: keyword types are
called as such, references are called by names, and a union has more than one variant.  One text
shows it for all of them.  It has round brackets around each element and each variant, so that
nothing is taken out of its place, and type arguments behind a reference that is called as a
keyword type, of which only the name counts.

* `TypeExpr.parts` : a type and, at any depth, the types that it is made of;
* `TypeExpr.written_iff` : what is said of the parts of a type is said along its structure;
* `TypeExpr.Written.parse_bracketed` : the text with all its brackets is read as the type;
* `TypeExpr.exists_parse_iff` : the types that some text is read as.
-/
import FieldTree.Proofs.Normal

namespace FieldTree.TypeExpr

variable {e : TypeExpr}

/-! ## Parts -/

mutual

/-- A type and, at any depth, the types that it is made of. -/
def parts : TypeExpr → List TypeExpr
  | .keyword name => [.keyword name]
  | .reference name => [.reference name]
  | .array element => .array element :: parts element
  | .map key value => .map key value :: (parts key ++ parts value)
  | .union variants => .union variants :: partsAll variants

/-- The parts of some variants. -/
def partsAll : List TypeExpr → List TypeExpr
  | [] => []
  | v :: rest => parts v ++ partsAll rest

end

theorem partsAll_eq_flatMap (variants : List TypeExpr) :
    partsAll variants = variants.flatMap parts := by
  induction variants with
  | nil => rfl
  | cons v rest ih => rw [partsAll, ih, List.flatMap_cons]

/-- What a part must be for a text to have it, whatever it is made of itself. -/
def Fits : TypeExpr → Prop
  | .keyword name => name ∈ keywordNames
  | .reference name => IsName name
  | .array _ => True
  | .map _ _ => True
  | .union variants => 2 ≤ variants.length

instance : DecidablePred Fits
  | .keyword name => inferInstanceAs (Decidable (name ∈ keywordNames))
  | .reference name => inferInstanceAs (Decidable (IsName name))
  | .array _ => inferInstanceAs (Decidable True)
  | .map _ _ => inferInstanceAs (Decidable True)
  | .union variants => inferInstanceAs (Decidable (2 ≤ variants.length))

/-- **A type can be read from a text if all of its parts fit.** -/
theorem written_iff : Written e ↔ ∀ part ∈ e.parts, part.Fits := by
  induction e with
  | keyword name =>
    rw [parts, List.forall_mem_singleton]
    exact ⟨fun h => by cases h; assumption, .keyword⟩
  | reference name =>
    rw [parts, List.forall_mem_singleton]
    exact ⟨fun h => by cases h; assumption, .reference⟩
  | array element ih =>
    rw [parts, List.forall_mem_cons, ← ih]
    constructor
    · intro h
      cases h with
      | array helement => exact ⟨trivial, helement⟩
    · rintro ⟨-, helement⟩
      exact .array helement
  | map key value ihKey ihValue =>
    rw [parts, List.forall_mem_cons, List.forall_mem_append, ← ihKey, ← ihValue]
    constructor
    · intro h
      cases h with
      | map hkey hvalue => exact ⟨trivial, hkey, hvalue⟩
    · rintro ⟨-, hkey, hvalue⟩
      exact .map hkey hvalue
  | union variants ih =>
    have hvariants : (∀ part ∈ partsAll variants, part.Fits) ↔ ∀ v ∈ variants, Written v := by
      rw [partsAll_eq_flatMap, List.forall_mem_flatMap]
      exact forall₂_congr fun v hv => (ih v hv).symm
    rw [parts, List.forall_mem_cons, hvariants]
    constructor
    · intro h
      cases h with
      | union hlen hvariants => exact ⟨hlen, hvariants⟩
    · rintro ⟨hlen, hvariants⟩
      exact .union hlen hvariants

/-- All parts fit if the keyword types, the references and the unions among them do. -/
theorem forall_fits_iff {es : List TypeExpr} :
    (∀ part ∈ es, part.Fits) ↔
      (∀ name, .keyword name ∈ es → name ∈ keywordNames) ∧
      (∀ name, .reference name ∈ es → IsName name) ∧
      (∀ variants, .union variants ∈ es → 2 ≤ variants.length) := by
  constructor
  · intro h
    exact ⟨fun name => h (.keyword name), fun name => h (.reference name),
      fun variants => h (.union variants)⟩
  · rintro ⟨hkeyword, hreference, hunion⟩ part hpart
    cases part with
    | keyword name => exact hkeyword name hpart
    | reference name => exact hreference name hpart
    | array => trivial
    | map => trivial
    | union variants => exact hunion variants hpart

/-! ## A text with all its brackets -/

mutual

/-- A text for a type.  Round brackets keep elements and variants in their places, and type
arguments keep a name from being that of a keyword type. -/
def bracketed : TypeExpr → String
  | .keyword name => name
  | .reference name => if name ∈ keywordNames then name ++ "<any>" else name
  | .array element => "(" ++ element.bracketed ++ ")[]"
  | .map key value => "Record<" ++ key.bracketed ++ ", " ++ value.bracketed ++ ">"
  | .union variants => " | ".intercalate (bracketedAll variants)

/-- The texts of some variants, each in brackets. -/
def bracketedAll : List TypeExpr → List String
  | [] => []
  | v :: rest => ("(" ++ v.bracketed ++ ")") :: bracketedAll rest

end

theorem bracketedAll_eq_map (variants : List TypeExpr) :
    bracketedAll variants = variants.map fun v => "(" ++ v.bracketed ++ ")" := by
  induction variants with
  | nil => rfl
  | cons v rest ih => rw [bracketedAll, ih, List.map_cons]

theorem PostfixPhrase.unionPhrase {ts : List Token} (h : PostfixPhrase ts e) : UnionPhrase ts e :=
  h.variants.unionPhrase .one

/-- Behind a keyword type's name, type arguments make a reference of it. -/
theorem primaryPhrase_of_mem_keywordNames {name : String} (h : name ∈ keywordNames) :
    PrimaryPhrase [.name name, .openAngle, .name "any", .closeAngle] (.reference name) := by
  have hany : UnionPhrase [.name "any"] (.keyword "any") :=
    (PostfixPhrase.primary (.bare (.keyword (by decide)))).unionPhrase
  have hnames : ¬("Array" ∈ keywordNames ∨ "ReadonlyArray" ∈ keywordNames) := by decide
  refine .generic hany .none (.reference ?_ nofun nofun)
  rintro ⟨-, rfl | rfl⟩
  · exact hnames (.inl h)
  · exact hnames (.inr h)

theorem IsName.lexes_arguments {name : String} (h : IsName name) :
    Lexes (name ++ "<any>").toList [.name name, .openAngle, .name "any", .closeAngle] := by
  have hany : IsName "any" := isName_of_mem_keywordNames (by decide)
  rw [String.toList_append]
  exact h.lexes.append (.mark rfl (hany.lexes.append (.mark rfl .done)
    (apart_cons _ _ (by decide)))) (apart_cons _ _ (by decide))

/-- **The text with all its brackets is made of the tokens of a phrase for the type.** -/
theorem Written.lexes_bracketed (h : Written e) :
    ∃ ts, Lexes e.bracketed.toList ts ∧ UnionPhrase ts e := by
  induction h with
  | @keyword name hname =>
    exact ⟨_, (isName_of_mem_keywordNames hname).lexes,
      (PostfixPhrase.primary (.bare (.keyword hname))).unionPhrase⟩
  | @reference name hname =>
    rw [bracketed]
    split
    · next hkeyword =>
      exact ⟨_, hname.lexes_arguments,
        (PostfixPhrase.primary (primaryPhrase_of_mem_keywordNames hkeyword)).unionPhrase⟩
    · next hkeyword =>
      have hbare : Named name [] (.reference name) := .reference nofun nofun fun h => hkeyword h.2
      exact ⟨_, hname.lexes, (PostfixPhrase.primary (.bare hbare)).unionPhrase⟩
  | @array element _ ih =>
    obtain ⟨ts, hlexes, hphrase⟩ := ih
    refine ⟨_, ?_, (PostfixPhrase.primary (.group hphrase)).array.unionPhrase⟩
    have hbrackets := hlexes.group.array
    rw [List.cons_append, List.append_assoc] at hbrackets
    rw [bracketed, String.toList_append, String.toList_append, List.append_assoc]
    exact hbrackets
  | @map key value _ _ ihKey ihValue =>
    obtain ⟨ts, hlexesKey, hphraseKey⟩ := ihKey
    obtain ⟨us, hlexesValue, hphraseValue⟩ := ihValue
    have hmore := FurtherArguments.more hphraseValue .none
    rw [List.append_nil] at hmore
    refine ⟨_, ?_, (PostfixPhrase.primary (.generic hphraseKey hmore .map)).unionPhrase⟩
    rw [bracketed, String.toList_append, String.toList_append, String.toList_append,
      String.toList_append, List.append_assoc, List.append_assoc, List.append_assoc]
    exact hlexesKey.record hlexesValue
  | @union variants hlen _ ih =>
    have hne : variants ≠ [] := by
      rw [← List.length_pos_iff]
      omega
    -- In its brackets each variant is a phrase that a bar can stand in front of.
    have hgroups : ∀ v ∈ variants, ∃ ts, Lexes ("(" ++ v.bracketed ++ ")").toList ts ∧
        FurtherVariants (.bar :: ts) [v] := by
      intro v hv
      obtain ⟨ts, hlexes, hphrase⟩ := ih v hv
      refine ⟨_, ?_, (PostfixPhrase.primary (.group hphrase)).variants⟩
      rw [String.toList_append, String.toList_append, List.append_assoc]
      exact hlexes.group
    obtain ⟨ts, hlexes, hvariants⟩ := lexes_intercalate hne hgroups
    rw [List.flatMap_singleton'] at hvariants
    rw [bracketed, bracketedAll_eq_map]
    exact ⟨ts, hlexes, hvariants.unionPhrase (.many hlen)⟩

/-- **The text with all its brackets is read as the type.** -/
theorem Written.parse_bracketed (h : Written e) : parse e.bracketed = .ok e := by
  obtain ⟨ts, hlexes, hphrase⟩ := h.lexes_bracketed
  exact parse_eq_ok_iff.2 ⟨ts, lex_eq_some_iff.2 hlexes, hphrase⟩

/-! ## The types that some text is read as -/

/-- **A type is read from some text exactly if its parts can be written.**  At any depth, a keyword
type is called as such, a reference is called by a name, even that of a keyword type, and a union
has at least two variants, even as a variant itself.  Then its text with all its brackets is read
as the type. -/
theorem exists_parse_iff (e : TypeExpr) :
    ((∃ s, parse s = .ok e) ↔
      (∀ name, .keyword name ∈ e.parts → name ∈ keywordNames) ∧
      (∀ name, .reference name ∈ e.parts → IsName name) ∧
      (∀ variants, .union variants ∈ e.parts → 2 ≤ variants.length)) ∧
    ((∃ s, parse s = .ok e) ↔ parse e.bracketed = .ok e) := by
  have hwritten : (∃ s, parse s = .ok e) ↔ Written e := by
    constructor
    · rintro ⟨s, hs⟩
      exact written_of_parse hs
    · intro h
      exact ⟨_, h.parse_bracketed⟩
  refine ⟨?_, ?_⟩
  · rw [hwritten, written_iff, forall_fits_iff]
  · constructor
    · intro h
      exact (hwritten.1 h).parse_bracketed
    · intro h
      exact ⟨_, h⟩

/-- A union in a union, references that are called as a keyword type or as the map type, and an
array of a union are read from some text; a union of a single variant is read from none. -/
theorem exists_parse_nested :
    (∃ s, parse s = .ok (.union [.union [.reference "string", .reference "Record"],
      .array (.union [.keyword "any", .reference "ns.$1"])])) ∧
    ¬∃ s, parse s = .ok (.array (.union [.keyword "any"])) := by
  refine ⟨(exists_parse_iff _).1.2 (forall_fits_iff.1 (by decide +kernel)), ?_⟩
  intro hread
  have htwo := ((exists_parse_iff _).1.1 hread).2.2 [.keyword "any"] (by decide +kernel)
  exact absurd htwo (by decide)

example : bracketed (.union [.array (.reference "string"), .union [.keyword "any", .reference "A"]])
    = "((string<any>)[]) | ((any) | (A))" := by decide +kernel

end FieldTree.TypeExpr
