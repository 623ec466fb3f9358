/-
# The grammar of the type notation

    union   ::= ['|'] postfix ('|' postfix)*
    postfix ::= primary ('[' ']')*
    primary ::= '(' union ')' | name ['<' union (',' union)* '>']

The phrases of the grammar are rows of tokens with a value, without a word about how they are
read.  The readers go from left to right and never take a choice back; still they find every
phrase, because the token after a phrase always tells where it ends.

* `TypeExpr.readUnion_sound` : what is read is a phrase, and the rest stands behind it;
* `TypeExpr.readUnion_append` : a phrase is read to its end, whatever closes it;
* `TypeExpr.UnionPhrase.unique` : a phrase has one value;
* `TypeExpr.parse_iff_derivation` : a text is a type exactly if its tokens are a phrase.
-/
import FieldTree.TypeExpr.Parser
import FieldTree.Proofs.Lexing

namespace FieldTree.TypeExpr

/-! ## Values of the phrases -/

/-- The value of a row of variants: one variant is itself, and more are a union. -/
inductive Joined : List TypeExpr → TypeExpr → Prop where
  | one {v : TypeExpr} : Joined [v] v
  | many {vs : List TypeExpr} : 2 ≤ vs.length → Joined vs (.union vs)

/-- The value of a name with type arguments. -/
inductive Named : String → List TypeExpr → TypeExpr → Prop where
  | array {name : String} {element : TypeExpr} :
      name = "Array" ∨ name = "ReadonlyArray" → Named name [element] (.array element)
  | map {key value : TypeExpr} : Named "Record" [key, value] (.map key value)
  | keyword {name : String} : name ∈ keywordNames → Named name [] (.keyword name)
  | reference {name : String} {arguments : List TypeExpr} :
      ¬(arguments.length = 1 ∧ (name = "Array" ∨ name = "ReadonlyArray")) →
      ¬(arguments.length = 2 ∧ name = "Record") →
      ¬(arguments.length = 0 ∧ name ∈ keywordNames) → Named name arguments (.reference name)

theorem joined_iff {v e : TypeExpr} {vs : List TypeExpr} :
    Joined (v :: vs) e ↔ ofVariants (v :: vs) = e := by
  constructor
  · intro h
    cases h with
    | one => rfl
    | many hlen =>
      cases vs with
      | nil => cases Nat.le_of_succ_le_succ hlen
      | cons w vs => rfl
  · rintro rfl
    cases vs with
    | nil => exact .one
    | cons w vs => exact .many (Nat.succ_le_succ (Nat.succ_le_succ (Nat.zero_le _)))

theorem named_iff {name : String} {arguments : List TypeExpr} {e : TypeExpr} :
    Named name arguments e ↔ ofName name arguments = e := by
  constructor
  · intro h
    cases h with
    | array hname => exact if_pos hname
    | map => rfl
    | keyword hname => exact if_pos hname
    | reference harray hmap hkeyword =>
      match arguments with
      | [] => exact if_neg fun hname => hkeyword ⟨rfl, hname⟩
      | [_] => exact if_neg fun hname => harray ⟨rfl, hname⟩
      | [_, _] => exact if_neg fun hname => hmap ⟨rfl, hname⟩
      | _ :: _ :: _ :: _ => rfl
  · rintro rfl
    match arguments with
    | [] =>
      rw [ofName]
      split
      · next hname => exact .keyword hname
      · next hname => exact .reference (by simp) (by simp) (by simpa using hname)
    | [_] =>
      rw [ofName]
      split
      · next hname => exact .array hname
      · next hname => exact .reference (by simpa using hname) (by simp) (by simp)
    | [_, _] =>
      rw [ofName]
      split
      · next hname =>
        subst hname
        exact .map
      · next hname => exact .reference (by simp) (by simpa using hname) (by simp)
    | _ :: _ :: _ :: _ => exact .reference (by simp) (by simp) (by simp)

/-! ## The phrases -/

mutual

/-- A union phrase: variants with bars between them, and one more bar in front if one likes. -/
inductive UnionPhrase : List Token → TypeExpr → Prop where
  | plain {ts us : List Token} {v e : TypeExpr} {vs : List TypeExpr} :
      PostfixPhrase ts v → FurtherVariants us vs → Joined (v :: vs) e → UnionPhrase (ts ++ us) e
  | leadingBar {ts us : List Token} {v e : TypeExpr} {vs : List TypeExpr} :
      PostfixPhrase ts v → FurtherVariants us vs → Joined (v :: vs) e →
      UnionPhrase (.bar :: (ts ++ us)) e

/-- The variants after the first one, each after a bar. -/
inductive FurtherVariants : List Token → List TypeExpr → Prop where
  | none : FurtherVariants [] []
  | more {ts us : List Token} {v : TypeExpr} {vs : List TypeExpr} :
      PostfixPhrase ts v → FurtherVariants us vs → FurtherVariants (.bar :: (ts ++ us)) (v :: vs)

/-- A primary phrase and pairs of square brackets, each of which makes an array. -/
inductive PostfixPhrase : List Token → TypeExpr → Prop where
  | primary {ts : List Token} {e : TypeExpr} : PrimaryPhrase ts e → PostfixPhrase ts e
  | array {ts : List Token} {e : TypeExpr} :
      PostfixPhrase ts e → PostfixPhrase (ts ++ [.openBracket, .closeBracket]) (.array e)

/-- A union phrase in round brackets, or a name with its type arguments. -/
inductive PrimaryPhrase : List Token → TypeExpr → Prop where
  | group {ts : List Token} {e : TypeExpr} :
      UnionPhrase ts e → PrimaryPhrase (.openParen :: (ts ++ [.closeParen])) e
  | bare {name : String} {e : TypeExpr} : Named name [] e → PrimaryPhrase [.name name] e
  | generic {name : String} {ts us : List Token} {a e : TypeExpr} {as : List TypeExpr} :
      UnionPhrase ts a → FurtherArguments us as → Named name (a :: as) e →
      PrimaryPhrase (.name name :: .openAngle :: (ts ++ (us ++ [.closeAngle]))) e

/-- The type arguments after the first one, each after a comma. -/
inductive FurtherArguments : List Token → List TypeExpr → Prop where
  | none : FurtherArguments [] []
  | more {ts us : List Token} {a : TypeExpr} {as : List TypeExpr} :
      UnionPhrase ts a → FurtherArguments us as → FurtherArguments (.comma :: (ts ++ us)) (a :: as)

end

/-- A primary phrase starts with a bracket or a name. -/
theorem PrimaryPhrase.start {ts : List Token} {e : TypeExpr} (h : PrimaryPhrase ts e) :
    ∃ t rest, ts = t :: rest ∧ t ≠ .bar := by
  cases h with
  | group => exact ⟨_, _, rfl, nofun⟩
  | bare => exact ⟨_, _, rfl, nofun⟩
  | generic => exact ⟨_, _, rfl, nofun⟩

theorem PostfixPhrase.start {ts : List Token} {e : TypeExpr} (h : PostfixPhrase ts e) :
    ∃ t rest, ts = t :: rest ∧ t ≠ .bar := by
  match h with
  | .primary h => exact h.start
  | .array h =>
    obtain ⟨t, rest, rfl, ht⟩ := h.start
    exact ⟨t, _, rfl, ht⟩

/-- No bar is dropped in front of a variant. -/
theorem PostfixPhrase.dropBar_append {ts : List Token} {e : TypeExpr} (h : PostfixPhrase ts e)
    (rest : List Token) : dropBar (ts ++ rest) = ts ++ rest := by
  obtain ⟨t, us, rfl, ht⟩ := h.start
  rw [List.cons_append]
  cases t <;> first | rfl | exact absurd rfl ht

/-- At most a bar is dropped. -/
theorem eq_or_eq_cons_dropBar (tokens : List Token) :
    tokens = dropBar tokens ∨ tokens = .bar :: dropBar tokens := by
  unfold dropBar
  split
  · exact .inr rfl
  · exact .inl rfl

/-! ## What is read is a phrase -/

/-- What stands behind two parts stands behind them together. -/
theorem append_trans {α : Type} {s t u a b : List α} (h : s = a ++ t) (h' : t = b ++ u) :
    s = a ++ b ++ u := by
  rw [h, h', List.append_assoc]

/-- Only square brackets are read behind a primary phrase, a pair for each array. -/
theorem readBrackets_sound {us : List Token} {e : TypeExpr} (h : PostfixPhrase us e)
    (tokens : List Token) :
    ∃ vs, us ++ tokens = vs ++ (readBrackets e tokens).rest ∧
      PostfixPhrase vs (readBrackets e tokens).value := by
  induction e, tokens using readBrackets.induct generalizing us with
  | case1 e rest ih =>
    rw [readBrackets]
    obtain ⟨vs, hvs, hphrase⟩ := ih h.array
    refine ⟨vs, ?_, hphrase⟩
    rw [← hvs, List.append_assoc]
    rfl
  | case2 e tokens hnone =>
    rw [readBrackets.eq_def]
    split
    · exact absurd rfl (hnone _)
    · exact ⟨us, rfl, h⟩

mutual

/-- **What is read as a union is a union phrase, and the rest stands behind it.** -/
theorem readUnion_sound {tokens : List Token} {t : Taken tokens TypeExpr}
    (h : readUnion tokens = some t) :
    ∃ us, tokens = us ++ t.rest ∧ UnionPhrase us t.value := by
  have hdrop := length_dropBar_le tokens
  rw [readUnion] at h
  split at h
  · cases h
  · next first hfirst =>
    cases h
    have hshorter := first.shorter
    obtain ⟨us, hus, hpost⟩ := readPostfix_sound hfirst
    obtain ⟨vs, hvs, hvariants⟩ := readVariants_sound first.rest
    have hjoined : Joined (first.value :: (readVariants first.rest).value) _ := joined_iff.2 rfl
    -- The bar in front was dropped if there is one, and the phrase is read from the rest.
    rcases eq_or_eq_cons_dropBar tokens with htokens | htokens
    · exact ⟨_, htokens.trans (append_trans hus hvs), .plain hpost hvariants hjoined⟩
    · exact ⟨_, htokens.trans (congrArg _ (append_trans hus hvs)),
        .leadingBar hpost hvariants hjoined⟩
termination_by 3 * tokens.length + 2
decreasing_by all_goals omega

/-- What is read as further variants are further variants. -/
theorem readVariants_sound (tokens : List Token) :
    ∃ us, tokens = us ++ (readVariants tokens).rest ∧
      FurtherVariants us (readVariants tokens).value := by
  rw [readVariants.eq_def]
  split
  · next rest =>
    split
    · exact ⟨[], rfl, .none⟩
    · next variant hvariant =>
      have hshorter := variant.shorter
      obtain ⟨us, hus, hpost⟩ := readPostfix_sound hvariant
      obtain ⟨vs, hvs, hvariants⟩ := readVariants_sound variant.rest
      exact ⟨_, congrArg _ (append_trans hus hvs), .more hpost hvariants⟩
  · exact ⟨[], rfl, .none⟩
termination_by 3 * tokens.length
decreasing_by all_goals subst_vars; rw [List.length_cons]; omega

/-- What is read as a primary phrase with square brackets is one. -/
theorem readPostfix_sound {tokens : List Token} {t : Taken tokens TypeExpr}
    (h : readPostfix tokens = some t) :
    ∃ us, tokens = us ++ t.rest ∧ PostfixPhrase us t.value := by
  rw [readPostfix] at h
  split at h
  · cases h
  · next base hbase =>
    cases h
    obtain ⟨us, hus, hprimary⟩ := readPrimary_sound hbase
    obtain ⟨vs, hvs, hpost⟩ := readBrackets_sound (.primary hprimary) base.rest
    exact ⟨vs, hus.trans hvs, hpost⟩
termination_by 3 * tokens.length + 1

/-- What is read as a primary phrase is one. -/
theorem readPrimary_sound {tokens : List Token} {t : Taken tokens TypeExpr}
    (h : readPrimary tokens = some t) :
    ∃ us, tokens = us ++ t.rest ∧ PrimaryPhrase us t.value := by
  rw [readPrimary.eq_def] at h
  split at h
  · next rest =>
    split at h
    · cases h
    · next inner hinner =>
      obtain ⟨us, hus, hunion⟩ := readUnion_sound hinner
      split at h
      · next after hafter =>
        cases h
        exact ⟨_, congrArg _ (append_trans hus hafter), .group hunion⟩
      · cases h
  · next name rest =>
    split at h
    · cases h
      exact ⟨[.name name], rfl, .bare (named_iff.2 rfl)⟩
    · next arguments harguments =>
      cases h
      obtain ⟨us, vs, a, as, hus, hvalue, hunion, hmore⟩ := readArguments_sound harguments
      exact ⟨_, congrArg _ hus, .generic hunion hmore (named_iff.2 (by rw [hvalue]))⟩
  · cases h
termination_by 3 * tokens.length
decreasing_by all_goals subst_vars; rw [List.length_cons]; omega

/-- What is read as type arguments are union phrases with commas between them, in angle
brackets. -/
theorem readArguments_sound {tokens : List Token} {t : Taken tokens (List TypeExpr)}
    (h : readArguments tokens = some t) :
    ∃ us vs a as, tokens = .openAngle :: (us ++ (vs ++ [.closeAngle])) ++ t.rest ∧
      t.value = a :: as ∧ UnionPhrase us a ∧ FurtherArguments vs as := by
  rw [readArguments.eq_def] at h
  split at h
  · next rest =>
    split at h
    · cases h
    · next first hfirst =>
      have hshorter := first.shorter
      obtain ⟨us, hus, hunion⟩ := readUnion_sound hfirst
      obtain ⟨vs, hvs, hmore⟩ := readMoreArguments_sound first.rest
      simp only at h
      split at h
      · next after hafter =>
        cases h
        refine ⟨us, vs, _, _, congrArg _ ?_, rfl, hunion, hmore⟩
        exact append_trans hus (append_trans hvs hafter)
      · cases h
  · cases h
termination_by 3 * tokens.length
decreasing_by all_goals subst_vars; rw [List.length_cons]; omega

/-- What is read as further type arguments are further type arguments. -/
theorem readMoreArguments_sound (tokens : List Token) :
    ∃ us, tokens = us ++ (readMoreArguments tokens).rest ∧
      FurtherArguments us (readMoreArguments tokens).value := by
  rw [readMoreArguments.eq_def]
  split
  · next rest =>
    split
    · exact ⟨[], rfl, .none⟩
    · next argument hargument =>
      have hshorter := argument.shorter
      obtain ⟨us, hus, hunion⟩ := readUnion_sound hargument
      obtain ⟨vs, hvs, hmore⟩ := readMoreArguments_sound argument.rest
      exact ⟨_, congrArg _ (append_trans hus hvs), .more hunion hmore⟩
  · exact ⟨[], rfl, .none⟩
termination_by 3 * tokens.length
decreasing_by all_goals subst_vars; rw [List.length_cons]; omega

end

/-! ## One step of each reader -/

theorem readBrackets_pair (e : TypeExpr) (tokens : List Token) :
    (readBrackets e (.openBracket :: .closeBracket :: tokens)).pair
      = (readBrackets (.array e) tokens).pair := by
  rw [readBrackets]
  rfl

theorem readBrackets_stop {tokens : List Token} (e : TypeExpr)
    (h : tokens.head? ≠ some .openBracket) : (readBrackets e tokens).pair = (e, tokens) := by
  rw [readBrackets.eq_def]
  split
  · exact absurd rfl h
  · rfl

theorem readVariants_stop {tokens : List Token} (h : tokens.head? ≠ some .bar) :
    (readVariants tokens).pair = ([], tokens) := by
  rw [readVariants.eq_def]
  split
  · exact absurd rfl h
  · rfl

theorem readVariants_more {tokens mid rest : List Token} {v : TypeExpr} {vs : List TypeExpr}
    (hfirst : (readPostfix tokens).map Taken.pair = some (v, mid))
    (hmore : (readVariants mid).pair = (vs, rest)) :
    (readVariants (.bar :: tokens)).pair = (v :: vs, rest) := by
  obtain ⟨first, hread, hpair⟩ := Option.map_eq_some_iff.1 hfirst
  obtain ⟨rfl, rfl⟩ := Prod.mk.inj hpair
  obtain ⟨rfl, rfl⟩ := Prod.mk.inj hmore
  rw [readVariants, hread]
  rfl

theorem readUnion_of {tokens mid rest : List Token} {v : TypeExpr} {vs : List TypeExpr}
    (hfirst : (readPostfix (dropBar tokens)).map Taken.pair = some (v, mid))
    (hmore : (readVariants mid).pair = (vs, rest)) :
    (readUnion tokens).map Taken.pair = some (ofVariants (v :: vs), rest) := by
  obtain ⟨first, hread, hpair⟩ := Option.map_eq_some_iff.1 hfirst
  obtain ⟨rfl, rfl⟩ := Prod.mk.inj hpair
  obtain ⟨rfl, rfl⟩ := Prod.mk.inj hmore
  rw [readUnion, hread]
  rfl

theorem readPostfix_of {tokens rest : List Token} {e : TypeExpr}
    (h : (readPrimary tokens).map Taken.pair = some (e, rest)) :
    (readPostfix tokens).map Taken.pair = some (readBrackets e rest).pair := by
  obtain ⟨base, hread, hpair⟩ := Option.map_eq_some_iff.1 h
  obtain ⟨rfl, rfl⟩ := Prod.mk.inj hpair
  rw [readPostfix, hread]
  rfl

theorem readPrimary_group {tokens rest : List Token} {e : TypeExpr}
    (h : (readUnion tokens).map Taken.pair = some (e, .closeParen :: rest)) :
    (readPrimary (.openParen :: tokens)).map Taken.pair = some (e, rest) := by
  obtain ⟨inner, hread, hpair⟩ := Option.map_eq_some_iff.1 h
  obtain ⟨rfl, hrest⟩ := Prod.mk.inj hpair
  rw [readPrimary, hread]
  simp only
  split
  · next after hafter =>
    rw [hrest] at hafter
    cases hafter
    rfl
  · next hnone => exact absurd hrest (hnone rest)

theorem readPrimary_bare {tokens : List Token} (name : String)
    (h : tokens.head? ≠ some .openAngle) :
    (readPrimary (.name name :: tokens)).map Taken.pair = some (ofName name [], tokens) := by
  have hnone : readArguments tokens = none := by
    rw [readArguments.eq_def]
    split
    · exact absurd rfl h
    · rfl
  rw [readPrimary, hnone]
  rfl

theorem readPrimary_generic {tokens mid rest : List Token} {a : TypeExpr} {as : List TypeExpr}
    (name : String) (hfirst : (readUnion tokens).map Taken.pair = some (a, mid))
    (hmore : (readMoreArguments mid).pair = (as, .closeAngle :: rest)) :
    (readPrimary (.name name :: .openAngle :: tokens)).map Taken.pair
      = some (ofName name (a :: as), rest) := by
  obtain ⟨first, hread, hpair⟩ := Option.map_eq_some_iff.1 hfirst
  obtain ⟨rfl, rfl⟩ := Prod.mk.inj hpair
  obtain ⟨rfl, hrest⟩ := Prod.mk.inj hmore
  have harguments : (readArguments (.openAngle :: tokens)).map Taken.pair
      = some (first.value :: (readMoreArguments first.rest).value, rest) := by
    rw [readArguments, hread]
    simp only
    split
    · next after hafter =>
      rw [hrest] at hafter
      cases hafter
      rfl
    · next hnone => exact absurd hrest (hnone rest)
  obtain ⟨arguments, hread, hpair⟩ := Option.map_eq_some_iff.1 harguments
  obtain ⟨hvalue, rfl⟩ := Prod.mk.inj hpair
  rw [readPrimary, hread, ← hvalue]
  rfl

theorem readMoreArguments_stop {tokens : List Token} (h : tokens.head? ≠ some .comma) :
    (readMoreArguments tokens).pair = ([], tokens) := by
  rw [readMoreArguments.eq_def]
  split
  · exact absurd rfl h
  · rfl

theorem readMoreArguments_more {tokens mid rest : List Token} {a : TypeExpr}
    {as : List TypeExpr} (hfirst : (readUnion tokens).map Taken.pair = some (a, mid))
    (hmore : (readMoreArguments mid).pair = (as, rest)) :
    (readMoreArguments (.comma :: tokens)).pair = (a :: as, rest) := by
  obtain ⟨first, hread, hpair⟩ := Option.map_eq_some_iff.1 hfirst
  obtain ⟨rfl, rfl⟩ := Prod.mk.inj hpair
  obtain ⟨rfl, rfl⟩ := Prod.mk.inj hmore
  rw [readMoreArguments, hread]
  rfl

/-! ## Each phrase is read to its end -/

/-- No union phrase goes on with what follows: it is a closing bracket, a comma or the end. -/
def Closes (rest : List Token) : Prop :=
  ∀ t ∈ rest.head?, t = .closeParen ∨ t = .comma ∨ t = .closeAngle

theorem closes_closeParen (rest : List Token) : Closes (.closeParen :: rest) := by
  intro t ht
  cases ht
  exact .inl rfl

theorem Closes.head?_ne {rest : List Token} (h : Closes rest) :
    rest.head? ≠ some .bar ∧ rest.head? ≠ some .openBracket ∧ rest.head? ≠ some .openAngle := by
  refine ⟨?_, ?_, ?_⟩ <;>
  · intro ht
    rcases h _ ht with h | h | h <;> cases h

/-- Behind a variant comes a bar or the end of its union phrase. -/
theorem FurtherVariants.head?_ne {us rest : List Token} {vs : List TypeExpr}
    (h : FurtherVariants us vs) (hrest : Closes rest) :
    (us ++ rest).head? ≠ some .openBracket ∧ (us ++ rest).head? ≠ some .openAngle := by
  cases h with
  | none => exact hrest.head?_ne.2
  | more _ _ => exact ⟨nofun, nofun⟩

/-- Behind a type argument comes a comma or the closing bracket. -/
theorem FurtherArguments.closes {us rest : List Token} {as : List TypeExpr}
    (h : FurtherArguments us as) : Closes (us ++ .closeAngle :: rest) := by
  intro t ht
  cases h with
  | none =>
    cases ht
    exact .inr (.inr rfl)
  | more _ _ =>
    cases ht
    exact .inr (.inl rfl)

/-- A variant whose square brackets are read on ends where the next variant or the end comes. -/
theorem readVariant_of {tokens us rest : List Token} {v : TypeExpr} {vs : List TypeExpr}
    (hvariants : FurtherVariants us vs) (hrest : Closes rest)
    (h : (readPostfix tokens).map Taken.pair = some (readBrackets v (us ++ rest)).pair) :
    (readPostfix tokens).map Taken.pair = some (v, us ++ rest) := by
  rw [h, readBrackets_stop v (hvariants.head?_ne hrest).1]

/-- A union is read to its end if its first variant and the further ones are. -/
theorem readUnion_of_variants {tokens ts us rest : List Token} {v e : TypeExpr}
    {vs : List TypeExpr} (hdrop : dropBar tokens = ts ++ (us ++ rest))
    (hvariants : FurtherVariants us vs) (hjoined : Joined (v :: vs) e) (hrest : Closes rest)
    (hfirst : (readPostfix (ts ++ (us ++ rest))).map Taken.pair
      = some (readBrackets v (us ++ rest)).pair)
    (hmore : (readVariants (us ++ rest)).pair = (vs, rest)) :
    (readUnion tokens).map Taken.pair = some (e, rest) := by
  rw [← hdrop] at hfirst
  rw [← joined_iff.1 hjoined]
  exact readUnion_of (readVariant_of hvariants hrest hfirst) hmore

mutual

/-- **A union phrase is read to its end, whatever closes it.** -/
theorem readUnion_append {ts rest : List Token} {e : TypeExpr} (h : UnionPhrase ts e)
    (hrest : Closes rest) : (readUnion (ts ++ rest)).map Taken.pair = some (e, rest) := by
  match h with
  | @UnionPhrase.plain ts us v _ vs hpost hvariants hjoined =>
    -- A variant does not start with a bar, so nothing is dropped.
    have hdrop : dropBar (ts ++ us ++ rest) = ts ++ (us ++ rest) := by
      rw [List.append_assoc, hpost.dropBar_append]
    exact readUnion_of_variants hdrop hvariants hjoined hrest
      (readPostfix_append hpost (hvariants.head?_ne hrest).2) (readVariants_append hvariants hrest)
  | @UnionPhrase.leadingBar ts us v _ vs hpost hvariants hjoined =>
    have hdrop : dropBar (.bar :: (ts ++ us) ++ rest) = ts ++ (us ++ rest) :=
      List.append_assoc ts us rest
    exact readUnion_of_variants hdrop hvariants hjoined hrest
      (readPostfix_append hpost (hvariants.head?_ne hrest).2) (readVariants_append hvariants hrest)
termination_by structural h

/-- Further variants are read to their end. -/
theorem readVariants_append {ts rest : List Token} {vs : List TypeExpr}
    (h : FurtherVariants ts vs) (hrest : Closes rest) :
    (readVariants (ts ++ rest)).pair = (vs, rest) := by
  match h with
  | .none => exact readVariants_stop hrest.head?_ne.1
  | @FurtherVariants.more ts us v vs hpost hvariants =>
    have hfirst := readPostfix_append hpost (hvariants.head?_ne hrest).2
    rw [List.cons_append, List.append_assoc]
    exact readVariants_more (readVariant_of hvariants hrest hfirst)
      (readVariants_append hvariants hrest)
termination_by structural h

/-- A primary phrase with square brackets is read on through all the brackets that follow. -/
theorem readPostfix_append {ts rest : List Token} {e : TypeExpr} (h : PostfixPhrase ts e)
    (hrest : rest.head? ≠ some .openAngle) :
    (readPostfix (ts ++ rest)).map Taken.pair = some (readBrackets e rest).pair := by
  match h with
  | .primary hprimary =>
    exact readPostfix_of (readPrimary_append hprimary fun hangle => absurd hangle hrest)
  | @PostfixPhrase.array ts e hpost =>
    -- The last pair of brackets is read after the others, as if it came behind the phrase.
    rw [List.append_assoc, ← readBrackets_pair]
    exact readPostfix_append hpost nofun
termination_by structural h

/-- A primary phrase is read to its end, unless it is a bare name that type arguments follow. -/
theorem readPrimary_append {ts rest : List Token} {e : TypeExpr} (h : PrimaryPhrase ts e)
    (hrest : rest.head? = some .openAngle → ∀ name, ts ≠ [.name name]) :
    (readPrimary (ts ++ rest)).map Taken.pair = some (e, rest) := by
  match h with
  | @PrimaryPhrase.group ts _ hunion =>
    rw [List.cons_append, List.append_assoc]
    exact readPrimary_group (readUnion_append hunion (closes_closeParen _))
  | .bare hnamed =>
    rw [← named_iff.1 hnamed]
    exact readPrimary_bare _ fun hangle => hrest hangle _ rfl
  | @PrimaryPhrase.generic name ts us a _ as hunion hmore hnamed =>
    rw [← named_iff.1 hnamed, List.cons_append, List.cons_append, List.append_assoc,
      List.append_assoc]
    exact readPrimary_generic name (readUnion_append hunion hmore.closes)
      (readMoreArguments_append hmore)
termination_by structural h

/-- Further type arguments are read to the closing bracket. -/
theorem readMoreArguments_append {ts rest : List Token} {as : List TypeExpr}
    (h : FurtherArguments ts as) :
    (readMoreArguments (ts ++ .closeAngle :: rest)).pair = (as, .closeAngle :: rest) := by
  match h with
  | .none => exact readMoreArguments_stop nofun
  | @FurtherArguments.more ts us a as hunion hmore =>
    rw [List.cons_append, List.append_assoc]
    exact readMoreArguments_more (readUnion_append hunion hmore.closes)
      (readMoreArguments_append hmore)
termination_by structural h

end

/-! ## Whole texts -/

/-- **A phrase has one value.** -/
theorem UnionPhrase.unique {ts : List Token} {e f : TypeExpr} (he : UnionPhrase ts e)
    (hf : UnionPhrase ts f) : e = f := by
  have hend : Closes [] := nofun
  have hread := (readUnion_append he hend).symm.trans (readUnion_append hf hend)
  exact congrArg Prod.fst (Option.some.inj hread)

/-- A text is read as a type exactly if it is made of the tokens of a phrase with that value. -/
theorem parse_eq_ok_iff {s : String} {e : TypeExpr} :
    parse s = .ok e ↔ ∃ ts, lex s = some ts ∧ UnionPhrase ts e := by
  rw [parse]
  constructor
  · intro h
    simp only at h
    split at h
    · cases h
    · next read hread =>
      split at h
      · next hunread =>
        cases h
        obtain ⟨us, htokens, hphrase⟩ := readUnion_sound hread
        obtain ⟨hrest, hstuck⟩ := (sourceOfLast_eq_nil_iff (Nat.le_of_lt read.shorter)).1 hunread
        rw [List.length_eq_zero_iff.1 hrest, List.append_nil] at htokens
        exact ⟨us, lex_eq_some_iff.2 (htokens ▸ lexes_scan s.toList hstuck), hphrase⟩
      · cases h
  · rintro ⟨ts, hlex, hphrase⟩
    obtain ⟨hstuck, rfl⟩ := (lex_eq_some_iff.1 hlex).scan
    -- The end of the tokens closes the phrase, so it is read as a whole and nothing is left.
    have hend : Closes [] := nofun
    have hwhole := readUnion_append hphrase hend
    rw [List.append_nil] at hwhole
    obtain ⟨read, hread, hpair⟩ := Option.map_eq_some_iff.1 hwhole
    obtain ⟨rfl, hrest⟩ := Prod.mk.inj hpair
    have hunread : (scan s.toList).sourceOfLast read.rest.length = [] :=
      (sourceOfLast_eq_nil_iff (Nat.le_of_lt read.shorter)).2 ⟨by rw [hrest]; rfl, hstuck⟩
    simp only [hread]
    exact if_pos hunread

/-- Blanks between two tokens do not change what a text is read as. -/
theorem toOption_parse_insert_blanks {a blanks b : String} (hab : Apart a.toList b.toList)
    (hblanks : ∀ c ∈ blanks.toList, isSpace c = true) :
    (parse (a ++ blanks ++ b)).toOption = (parse (a ++ b)).toOption := by
  have hlex : lex (a ++ blanks ++ b) = lex (a ++ b) := by
    apply Option.ext
    intro ts
    rw [lex_eq_some_iff, lex_eq_some_iff, String.toList_append, String.toList_append,
      String.toList_append, List.append_assoc, lexes_insert_blanks hab hblanks]
  have hiff : ∀ e, parse (a ++ blanks ++ b) = .ok e ↔ parse (a ++ b) = .ok e := by
    intro e
    rw [parse_eq_ok_iff, parse_eq_ok_iff, hlex]
  cases hparse : parse (a ++ b) with
  | ok e => rw [(hiff e).2 hparse]
  | error _ =>
    cases hblank : parse (a ++ blanks ++ b) with
    | ok e =>
      rw [hiff, hparse] at hblank
      cases hblank
    | error _ => rfl

/-- **The types are the texts whose tokens are a union phrase.**  The tokens of a text are the
marks and the longest names in it, the value of the phrase is the type that is read, a phrase
has one value only, and blanks between two tokens do not change what is read. -/
theorem parse_iff_derivation :
    (∀ (s : String) (ts : List Token), lex s = some ts ↔ Lexes s.toList ts) ∧
    (∀ (s : String) (e : TypeExpr),
      parse s = .ok e ↔ ∃ ts, lex s = some ts ∧ UnionPhrase ts e) ∧
    (∀ (ts : List Token) (e f : TypeExpr), UnionPhrase ts e → UnionPhrase ts f → e = f) ∧
    (∀ a blanks b : String, Apart a.toList b.toList → (∀ c ∈ blanks.toList, isSpace c = true) →
      (parse (a ++ blanks ++ b)).toOption = (parse (a ++ b)).toOption) := by
  refine ⟨?_, ?_, ?_, ?_⟩
  · intro s ts
    exact lex_eq_some_iff
  · intro s e
    exact parse_eq_ok_iff
  · intro ts e f he hf
    exact he.unique hf
  · intro a blanks b hab hblanks
    exact toOption_parse_insert_blanks hab hblanks

/-- A map with an array and a missing value is read from its tokens, with blanks or without. -/
theorem parse_iff_derivation_record :
    (∃ ts, lex "Record<string,a.b[]>|null" = some ts ∧
      UnionPhrase ts
        (.union [.map (.keyword "string") (.array (.reference "a.b")), .keyword "null"])) ∧
    (parse ("Record<string,a.b[" ++ " \n" ++ "]>|null")).toOption
      = (parse ("Record<string,a.b[" ++ "]>|null")).toOption :=
  ⟨(parse_iff_derivation.2.1 _ _).1 (by decide +kernel),
    parse_iff_derivation.2.2.2 _ _ _ (apart_cons _ _ (by decide)) (by simp [isSpace])⟩

end FieldTree.TypeExpr
