/-
# Reading a displayed type back

A type that was read from a text displays as a text that is read as its normal form: a union
that is a variant of another union gives its variants to it, and a reference that is called as
a keyword type is that keyword type.  Both come from what a text does not show: the brackets
around a union in a union, and the type arguments of a name.

* `TypeExpr.norm`, `TypeExpr.Normal` : the normal form, and the types that are their own;
* `TypeExpr.norm_eq_self_iff` : the types that are their own normal form are the normal ones;
* `TypeExpr.written_of_parse` : what a type that was read consists of;
* `TypeExpr.Written.lexes_text` : the displayed text is made of the tokens of the normal form;
* `TypeExpr.parse_text_normalizes` : the displayed text is read as the normal form.
-/
import FieldTree.Proofs.Grammar

namespace FieldTree.TypeExpr

/-- Induction on a type: a union inherits from all of its variants. -/
@[elab_as_elim, induction_eliminator]
theorem induction {motive : TypeExpr → Prop} (keyword : ∀ name, motive (.keyword name))
    (reference : ∀ name, motive (.reference name))
    (array : ∀ element, motive element → motive (.array element))
    (map : ∀ key value, motive key → motive value → motive (.map key value))
    (union : ∀ variants, (∀ v ∈ variants, motive v) → motive (.union variants)) : ∀ e, motive e
  | .keyword name => keyword name
  | .reference name => reference name
  | .array element => array element (induction keyword reference array map union element)
  | .map key value =>
    map key value (induction keyword reference array map union key)
      (induction keyword reference array map union value)
  | .union variants =>
    union variants fun v _ => induction keyword reference array map union v

/-! ## The normal form -/

/-- The variants of a union; any other type is its own only variant. -/
def alternatives : TypeExpr → List TypeExpr
  | .union variants => variants
  | e => [e]

mutual

/-- The normal form of a type: the variants of a union directly in a union are variants of the
outer one, and a reference that is called as a keyword type is that keyword type. -/
def norm : TypeExpr → TypeExpr
  | .keyword name => .keyword name
  | .reference name => if name ∈ keywordNames then .keyword name else .reference name
  | .array element => .array (norm element)
  | .map key value => .map (norm key) (norm value)
  | .union variants => .union (normAll variants)

/-- The variants in normal form, and for a union among them its own variants. -/
def normAll : List TypeExpr → List TypeExpr
  | [] => []
  | v :: rest => (norm v).alternatives ++ normAll rest

end

/-- A type that is its own normal form: no union is directly in a union, and no reference is
called as a keyword type. -/
inductive Normal : TypeExpr → Prop where
  | keyword {name : String} : Normal (.keyword name)
  | reference {name : String} : name ∉ keywordNames → Normal (.reference name)
  | array {element : TypeExpr} : Normal element → Normal (.array element)
  | map {key value : TypeExpr} : Normal key → Normal value → Normal (.map key value)
  | union {variants : List TypeExpr} :
      (∀ v ∈ variants, Normal v) → (∀ v ∈ variants, v.isUnion = false) →
      Normal (.union variants)

theorem normAll_eq_flatMap (variants : List TypeExpr) :
    normAll variants = variants.flatMap fun v => (norm v).alternatives := by
  induction variants with
  | nil => rfl
  | cons v rest ih => rw [normAll, ih, List.flatMap_cons]

theorem alternatives_of_not_isUnion {e : TypeExpr} (h : e.isUnion = false) :
    e.alternatives = [e] := by
  cases e with
  | union variants => cases h
  | _ => rfl

/-- The normal form of a union is a union, and that of anything else is not. -/
theorem isUnion_norm (e : TypeExpr) : e.norm.isUnion = e.isUnion := by
  cases e with
  | reference name => rw [norm]; split <;> rfl
  | _ => simp only [norm, isUnion]

/-- No variant of a normal form is a union. -/
theorem isUnion_of_mem_alternatives_norm {e v : TypeExpr} (h : v ∈ e.norm.alternatives) :
    v.isUnion = false := by
  induction e with
  | union variants ih =>
    rw [norm, alternatives, normAll_eq_flatMap, List.mem_flatMap] at h
    obtain ⟨w, hw, hv⟩ := h
    exact ih w hw hv
  | _ =>
    rw [alternatives_of_not_isUnion (isUnion_norm _), List.mem_singleton] at h
    rw [h]
    exact isUnion_norm _

theorem Normal.of_mem_alternatives {e v : TypeExpr} (h : Normal e) (hv : v ∈ e.alternatives) :
    Normal v := by
  cases e with
  | union variants =>
    cases h with
    | union hvariants _ => exact hvariants v hv
  | _ =>
    rw [List.mem_singleton.1 hv]
    exact h

/-- **A normal form is normal.** -/
theorem normal_norm (e : TypeExpr) : Normal e.norm := by
  induction e with
  | keyword name => rw [norm]; exact .keyword
  | reference name =>
    rw [norm]
    split
    · exact .keyword
    · next hname => exact .reference hname
  | array element ih => rw [norm]; exact .array ih
  | map key value ihKey ihValue => rw [norm]; exact .map ihKey ihValue
  | union variants ih =>
    rw [norm, normAll_eq_flatMap]
    refine .union ?_ ?_
    · intro v hv
      obtain ⟨w, hw, hv⟩ := List.mem_flatMap.1 hv
      exact (ih w hw).of_mem_alternatives hv
    · intro v hv
      obtain ⟨w, hw, hv⟩ := List.mem_flatMap.1 hv
      exact isUnion_of_mem_alternatives_norm hv

/-- A normal type is its own normal form. -/
theorem Normal.norm_eq {e : TypeExpr} (h : Normal e) : e.norm = e := by
  induction h with
  | keyword => rw [norm]
  | reference hname => rw [norm, if_neg hname]
  | array _ ih => rw [norm, ih]
  | map _ _ ihKey ihValue => rw [norm, ihKey, ihValue]
  | @union variants _ hunion ih =>
    -- No variant is a union, so each of them stays where it is.
    have hone : ∀ v ∈ variants, (norm v).alternatives = [v] := by
      intro v hv
      rw [ih v hv, alternatives_of_not_isUnion (hunion v hv)]
    rw [norm, normAll_eq_flatMap, List.flatMap_congr hone, List.flatMap_singleton']

/-- **The types that are their own normal form are the normal ones.** -/
theorem norm_eq_self_iff {e : TypeExpr} : e.norm = e ↔ Normal e := by
  constructor
  · intro h
    rw [← h]
    exact normal_norm e
  · exact Normal.norm_eq

/-! ## What can be read -/

/-- A type that can be read from a text: keyword types are called as such, references by
names, and a union has more than one variant. -/
inductive Written : TypeExpr → Prop where
  | keyword {name : String} : name ∈ keywordNames → Written (.keyword name)
  | reference {name : String} : IsName name → Written (.reference name)
  | array {element : TypeExpr} : Written element → Written (.array element)
  | map {key value : TypeExpr} : Written key → Written value → Written (.map key value)
  | union {variants : List TypeExpr} :
      2 ≤ variants.length → (∀ v ∈ variants, Written v) → Written (.union variants)

/-- A token that can stand in a text: if it is a name, it is called as one. -/
def Token.Lexical (t : Token) : Prop := ∀ name, t = .name name → IsName name

theorem Token.lexical_of_mark? {c : Char} {m : Token} (h : Token.mark? c = some m) :
    m.Lexical := by
  unfold Token.mark? at h
  split at h <;> cases h <;> exact nofun

theorem Lexes.lexical {s : List Char} {ts : List Token} (h : Lexes s ts) :
    ∀ t ∈ ts, t.Lexical := by
  induction h with
  | done => exact nofun
  | space _ _ ih => exact ih
  | mark hmark _ ih => exact List.forall_mem_cons.2 ⟨Token.lexical_of_mark? hmark, ih⟩
  | name hword _ _ ih =>
    refine List.forall_mem_cons.2 ⟨?_, ih⟩
    intro name hname
    cases hname
    exact hword

theorem Joined.written {vs : List TypeExpr} {e : TypeExpr} (h : Joined vs e)
    (hvs : ∀ v ∈ vs, Written v) : Written e := by
  cases h with
  | one => exact hvs e List.mem_cons_self
  | many hlen => exact .union hlen hvs

theorem Named.written {name : String} {arguments : List TypeExpr} {e : TypeExpr}
    (h : Named name arguments e) (hname : IsName name) (harguments : ∀ a ∈ arguments, Written a) :
    Written e := by
  cases h with
  | array _ => exact .array (harguments _ List.mem_cons_self)
  | map =>
    exact .map (harguments _ List.mem_cons_self)
      (harguments _ (List.mem_cons_of_mem _ List.mem_cons_self))
  | keyword hkeyword => exact .keyword hkeyword
  | reference _ _ _ => exact .reference hname

mutual

/-- The value of a union phrase can be read. -/
theorem UnionPhrase.written {ts : List Token} {e : TypeExpr} (h : UnionPhrase ts e)
    (hts : ∀ t ∈ ts, t.Lexical) : Written e := by
  match h with
  | .plain hpost hvariants hjoined =>
    rw [List.forall_mem_append] at hts
    exact hjoined.written
      (List.forall_mem_cons.2 ⟨hpost.written hts.1, hvariants.written hts.2⟩)
  | .leadingBar hpost hvariants hjoined =>
    rw [List.forall_mem_cons, List.forall_mem_append] at hts
    exact hjoined.written
      (List.forall_mem_cons.2 ⟨hpost.written hts.2.1, hvariants.written hts.2.2⟩)
termination_by structural h

theorem FurtherVariants.written {ts : List Token} {vs : List TypeExpr}
    (h : FurtherVariants ts vs) (hts : ∀ t ∈ ts, t.Lexical) : ∀ v ∈ vs, Written v := by
  match h with
  | .none => exact nofun
  | .more hpost hvariants =>
    rw [List.forall_mem_cons, List.forall_mem_append] at hts
    exact List.forall_mem_cons.2 ⟨hpost.written hts.2.1, hvariants.written hts.2.2⟩
termination_by structural h

theorem PostfixPhrase.written {ts : List Token} {e : TypeExpr} (h : PostfixPhrase ts e)
    (hts : ∀ t ∈ ts, t.Lexical) : Written e := by
  match h with
  | .primary hprimary => exact hprimary.written hts
  | .array hpost =>
    rw [List.forall_mem_append] at hts
    exact .array (hpost.written hts.1)
termination_by structural h

theorem PrimaryPhrase.written {ts : List Token} {e : TypeExpr} (h : PrimaryPhrase ts e)
    (hts : ∀ t ∈ ts, t.Lexical) : Written e := by
  match h with
  | .group hunion =>
    rw [List.forall_mem_cons, List.forall_mem_append] at hts
    exact hunion.written hts.2.1
  | .bare hnamed => exact hnamed.written (hts _ List.mem_cons_self _ rfl) nofun
  | .generic hunion hmore hnamed =>
    rw [List.forall_mem_cons, List.forall_mem_cons, List.forall_mem_append,
      List.forall_mem_append] at hts
    exact hnamed.written (hts.1 _ rfl)
      (List.forall_mem_cons.2 ⟨hunion.written hts.2.2.1, hmore.written hts.2.2.2.1⟩)
termination_by structural h

theorem FurtherArguments.written {ts : List Token} {as : List TypeExpr}
    (h : FurtherArguments ts as) (hts : ∀ t ∈ ts, t.Lexical) : ∀ a ∈ as, Written a := by
  match h with
  | .none => exact nofun
  | .more hunion hmore =>
    rw [List.forall_mem_cons, List.forall_mem_append] at hts
    exact List.forall_mem_cons.2 ⟨hunion.written hts.2.1, hmore.written hts.2.2⟩
termination_by structural h

end

/-- **What is read from a text can be read**: its names are names, and its unions have more
than one variant. -/
theorem written_of_parse {s : String} {e : TypeExpr} (h : parse s = .ok e) : Written e := by
  obtain ⟨ts, hlex, hphrase⟩ := parse_eq_ok_iff.1 h
  exact hphrase.written (lex_eq_some_iff.1 hlex).lexical

/-! ## The text of the normal form -/

/-- A type displays as its variants with bars between them. -/
theorem text_eq_intercalate (e : TypeExpr) :
    e.text = " | ".intercalate (e.alternatives.map text) := by
  cases e with
  | union variants => rw [text_union, alternatives]
  | _ => exact String.intercalate_singleton.symm

/-- No variant is lost. -/
theorem length_le_length_normAll {vs : List TypeExpr}
    (h : ∀ v ∈ vs, v.norm.alternatives ≠ []) : vs.length ≤ (normAll vs).length := by
  induction vs with
  | nil => exact Nat.le_refl _
  | cons v rest ih =>
    rw [List.forall_mem_cons] at h
    have hfirst := List.length_pos_iff.2 h.1
    have hrest := ih h.2
    rw [normAll, List.length_append, List.length_cons]
    omega

theorem Written.alternatives_norm_ne_nil {e : TypeExpr} (h : Written e) :
    e.norm.alternatives ≠ [] := by
  induction h with
  | union hlen _ ih =>
    have := length_le_length_normAll ih
    rw [norm, alternatives, ← List.length_pos_iff]
    omega
  | reference _ =>
    rw [norm]
    split <;> exact List.cons_ne_nil _ _
  | _ => exact List.cons_ne_nil _ _

/-- The variants of variants display as the variants do. -/
theorem intercalate_normAll {vs : List TypeExpr} (hvs : ∀ v ∈ vs, Written v)
    (htext : ∀ v ∈ vs, v.norm.text = v.text) :
    " | ".intercalate ((normAll vs).map text) = " | ".intercalate (vs.map text) := by
  induction vs with
  | nil => rfl
  | cons v rest ih =>
    rw [List.forall_mem_cons] at hvs htext
    have hfirst : " | ".intercalate (v.norm.alternatives.map text) = v.text := by
      rw [← text_eq_intercalate, htext.1]
    rw [normAll, List.map_append, List.map_cons]
    cases rest with
    | nil =>
      rw [normAll, List.map_nil, List.append_nil, hfirst, String.intercalate_singleton]
    | cons w rest =>
      -- Between two rows of texts stands one bar only if neither row is empty.
      have hvariants : v.norm.alternatives.map text ≠ [] := by
        rw [Ne, List.map_eq_nil_iff]
        exact hvs.1.alternatives_norm_ne_nil
      have hmore : (normAll (w :: rest)).map text ≠ [] := by
        have := length_le_length_normAll fun u hu => (hvs.2 u hu).alternatives_norm_ne_nil
        rw [List.length_cons] at this
        rw [← List.length_pos_iff, List.length_map]
        omega
      rw [String.intercalate_append_of_ne_nil hvariants hmore, hfirst, ih hvs.2 htext.2,
        String.intercalate_cons_of_ne_nil (by simp)]

/-- **A type that can be read displays as its normal form does.** -/
theorem Written.text_norm {e : TypeExpr} (h : Written e) : e.norm.text = e.text := by
  induction h with
  | keyword => rw [norm]
  | reference =>
    rw [norm]
    split <;> rfl
  | array _ ih => rw [norm, text_array, text_array, isUnion_norm, ih]
  | map _ _ ihKey ihValue => rw [norm, text, text, ihKey, ihValue]
  | union _ hvariants ih => rw [norm, text_union, text_union, intercalate_normAll hvariants ih]

/-! ## The displayed text is read as the normal form -/

theorem isName_iff {text : String} : IsName text ↔
    text.toList.head?.any startsName = true ∧ text.toList.tail.all continuesName = true := by
  constructor
  · rintro ⟨c, rest, htext, hstart, hrest⟩
    rw [htext]
    exact ⟨hstart, hrest⟩
  · rintro ⟨hstart, hrest⟩
    cases htext : text.toList with
    | nil =>
      rw [htext] at hstart
      cases hstart
    | cons c rest =>
      rw [htext] at hstart hrest
      exact ⟨c, rest, htext, hstart, hrest⟩

instance : DecidablePred IsName := fun _ => decidable_of_iff _ isName_iff.symm

/-- The keyword types are called by names. -/
theorem isName_of_mem_keywordNames {name : String} (h : name ∈ keywordNames) : IsName name := by
  have hall : ∀ name ∈ keywordNames, IsName name := by decide
  exact hall name h

theorem PostfixPhrase.variants {ts : List Token} {e : TypeExpr} (h : PostfixPhrase ts e) :
    FurtherVariants (.bar :: ts) [e] := by
  have hmore := FurtherVariants.more h .none
  rwa [List.append_nil] at hmore

theorem FurtherVariants.append {ts us : List Token} {vs ws : List TypeExpr}
    (h : FurtherVariants ts vs) (h' : FurtherVariants us ws) :
    FurtherVariants (ts ++ us) (vs ++ ws) := by
  induction vs generalizing ts with
  | nil =>
    cases h
    exact h'
  | cons v vs ih =>
    cases h with
    | more hpost hvariants =>
      rw [List.cons_append, List.append_assoc]
      exact .more hpost (ih hvariants)

theorem FurtherVariants.unionPhrase {ts : List Token} {vs : List TypeExpr} {e : TypeExpr}
    (h : FurtherVariants (.bar :: ts) vs) (hjoined : Joined vs e) : UnionPhrase ts e := by
  cases h with
  | more hpost hvariants => exact .plain hpost hvariants hjoined

theorem FurtherVariants.soleVariant {ts : List Token} {e : TypeExpr}
    (h : FurtherVariants (.bar :: ts) [e]) : PostfixPhrase ts e := by
  cases h with
  | more hpost hvariants =>
    cases hvariants
    rwa [List.append_nil]

/-- The normal form is what its variants make. -/
theorem Written.joined_norm {e : TypeExpr} (h : Written e) :
    Joined e.norm.alternatives e.norm := by
  cases hunion : e.isUnion with
  | false =>
    rw [alternatives_of_not_isUnion (by rw [isUnion_norm, hunion])]
    exact .one
  | true =>
    cases h with
    | union hlen hvariants =>
      have := length_le_length_normAll fun v hv => (hvariants v hv).alternatives_norm_ne_nil
      rw [norm]
      exact .many (Nat.le_trans hlen this)
    | _ => cases hunion

theorem IsName.lexes {name : String} (h : IsName name) : Lexes name.toList [.name name] := by
  have hlexes := Lexes.name h (s := []) nofun .done
  rwa [List.append_nil] at hlexes

theorem Lexes.array {s : List Char} {ts : List Token} (h : Lexes s ts) :
    Lexes (s ++ ['[', ']']) (ts ++ [.openBracket, .closeBracket]) :=
  h.append (.mark rfl (.mark rfl .done)) (apart_cons _ _ (by decide))

theorem Lexes.group {s : List Char} {ts : List Token} (h : Lexes s ts) :
    Lexes ('(' :: (s ++ [')'])) (.openParen :: (ts ++ [.closeParen])) :=
  .mark rfl (h.append (.mark rfl .done) (apart_cons _ _ (by decide)))

theorem Lexes.bar {s t : List Char} {ts us : List Token} (hs : Lexes s ts) (ht : Lexes t us) :
    Lexes (s ++ (' ' :: '|' :: ' ' :: t)) (ts ++ .bar :: us) :=
  hs.append (.space (by decide) (.mark rfl (.space (by decide) ht))) (apart_cons _ _ (by decide))

theorem Lexes.record {s t : List Char} {ts us : List Token} (hs : Lexes s ts) (ht : Lexes t us) :
    Lexes ("Record".toList ++ '<' :: (s ++ ',' :: ' ' :: (t ++ ['>'])))
      (.name "Record" :: .openAngle :: (ts ++ ((.comma :: us) ++ [.closeAngle]))) := by
  refine .name (by decide) ?_ (.mark rfl ?_)
  · intro c hc
    cases hc
    decide
  · refine hs.append (.mark rfl (.space (by decide) ?_)) (apart_cons _ _ (by decide))
    exact ht.append (.mark rfl .done) (apart_cons _ _ (by decide))

/-- Texts with bars between them are made of the tokens of all the variants that they stand for. -/
theorem lexes_intercalate {display : TypeExpr → String} {shown : TypeExpr → List TypeExpr}
    {vs : List TypeExpr} (hne : vs ≠ [])
    (h : ∀ v ∈ vs, ∃ ts, Lexes (display v).toList ts ∧ FurtherVariants (.bar :: ts) (shown v)) :
    ∃ ts, Lexes (" | ".intercalate (vs.map display)).toList ts ∧
      FurtherVariants (.bar :: ts) (vs.flatMap shown) := by
  induction vs with
  | nil => exact absurd rfl hne
  | cons v rest ih =>
    rw [List.forall_mem_cons] at h
    obtain ⟨⟨ts, hlexes, hvariants⟩, hrest⟩ := h
    cases rest with
    | nil =>
      refine ⟨ts, ?_, ?_⟩
      · rw [List.map_cons, List.map_nil, String.intercalate_singleton]
        exact hlexes
      · rw [List.flatMap_singleton]
        exact hvariants
    | cons w rest =>
      obtain ⟨us, hlexes', hvariants'⟩ := ih (List.cons_ne_nil _ _) hrest
      refine ⟨ts ++ .bar :: us, ?_, ?_⟩
      · rw [List.map_cons, String.intercalate_cons_of_ne_nil (by simp), String.toList_append,
          String.toList_append, List.append_assoc]
        exact hlexes.bar hlexes'
      · rw [List.flatMap_cons]
        exact hvariants.append hvariants'

/-- **A type that can be read displays as a text that is made of the tokens of its normal
form.** -/
theorem Written.lexes_text {e : TypeExpr} (h : Written e) :
    ∃ ts, Lexes e.text.toList ts ∧ FurtherVariants (.bar :: ts) e.norm.alternatives := by
  induction h with
  | @keyword name hname =>
    refine ⟨[.name name], (isName_of_mem_keywordNames hname).lexes, ?_⟩
    exact (PostfixPhrase.primary (.bare (.keyword hname))).variants
  | @reference name hname =>
    refine ⟨[.name name], hname.lexes, ?_⟩
    rw [norm]
    split
    · next hkeyword => exact (PostfixPhrase.primary (.bare (.keyword hkeyword))).variants
    · next hkeyword =>
      exact (PostfixPhrase.primary (.bare (.reference nofun nofun fun h => hkeyword h.2))).variants
  | @array element helement ih =>
    obtain ⟨ts, hlexes, hvariants⟩ := ih
    cases hunion : element.isUnion with
    | true =>
      -- The round brackets are displayed, and make the union a phrase that arrays are made of.
      have hgroup := PrimaryPhrase.group (hvariants.unionPhrase helement.joined_norm)
      refine ⟨_, ?_, (PostfixPhrase.primary hgroup).array.variants⟩
      have hbrackets := hlexes.group.array
      rw [List.cons_append, List.append_assoc] at hbrackets
      rw [text_array, hunion, if_pos rfl, String.toList_append, String.toList_append,
        List.append_assoc]
      exact hbrackets
    | false =>
      -- No brackets are displayed, and none are needed: the element is a single variant.
      rw [alternatives_of_not_isUnion (by rw [isUnion_norm, hunion])] at hvariants
      refine ⟨_, ?_, hvariants.soleVariant.array.variants⟩
      rw [text_array, hunion, if_neg Bool.false_ne_true, String.toList_append]
      exact hlexes.array
  | @map key value hkey hvalue ihKey ihValue =>
    obtain ⟨ts, hlexesKey, hvariantsKey⟩ := ihKey
    obtain ⟨us, hlexesValue, hvariantsValue⟩ := ihValue
    have hmore := FurtherArguments.more (hvariantsValue.unionPhrase hvalue.joined_norm) .none
    rw [List.append_nil] at hmore
    have hrecord :=
      PrimaryPhrase.generic (hvariantsKey.unionPhrase hkey.joined_norm) hmore .map
    refine ⟨_, ?_, (PostfixPhrase.primary hrecord).variants⟩
    rw [text, String.toList_append, String.toList_append, String.toList_append,
      String.toList_append, List.append_assoc, List.append_assoc, List.append_assoc]
    exact hlexesKey.record hlexesValue
  | @union variants hlen _ ih =>
    have hne : variants ≠ [] := by
      rw [← List.length_pos_iff]
      omega
    rw [text_union, norm, alternatives, normAll_eq_flatMap]
    exact lexes_intercalate hne ih

/-- The displayed text of a type that can be read is read as its normal form. -/
theorem Written.parse_text {e : TypeExpr} (h : Written e) : parse e.text = .ok e.norm := by
  obtain ⟨ts, hlexes, hvariants⟩ := h.lexes_text
  exact parse_eq_ok_iff.2 ⟨ts, lex_eq_some_iff.2 hlexes, hvariants.unionPhrase h.joined_norm⟩

/-- **A type that was read displays as a text that is read as its normal form.**  The normal
form displays as that text again, so that reading and displaying it once more changes nothing;
and it is the type itself exactly if no union is directly in a union and no reference is called
as a keyword type. -/
theorem parse_text_normalizes {s : String} {e : TypeExpr} (h : parse s = .ok e) :
    parse e.text = .ok e.norm ∧ e.norm.text = e.text ∧
    (parse e.text).map text = .ok e.text ∧ (parse e.text = .ok e ↔ Normal e) := by
  have hwritten := written_of_parse h
  have htext := hwritten.text_norm
  rw [hwritten.parse_text]
  refine ⟨rfl, htext, congrArg Except.ok htext, ?_⟩
  rw [Except.ok.injEq]
  exact norm_eq_self_iff

/-- A union in brackets and a keyword type with type arguments do not come back. -/
theorem parse_text_normalizes_union :
    parse "(A | B) | string<C>"
      = .ok (.union [.union [.reference "A", .reference "B"], .reference "string"]) ∧
    parse (union [.union [.reference "A", .reference "B"], .reference "string"]).text
      = .ok (.union [.reference "A", .reference "B", .keyword "string"]) := by
  have hread : parse "(A | B) | string<C>"
      = .ok (.union [.union [.reference "A", .reference "B"], .reference "string"]) := by
    decide +kernel
  have hnorm : norm (.union [.union [.reference "A", .reference "B"], .reference "string"])
      = .union [.reference "A", .reference "B", .keyword "string"] := by
    decide +kernel
  refine ⟨hread, ?_⟩
  rw [← hnorm]
  exact (parse_text_normalizes hread).1

end FieldTree.TypeExpr
