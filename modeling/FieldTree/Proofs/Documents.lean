/-
# Written documents are read back

A document is written line by line, each with a key and a value: a string, an array of strings
or a number.  Each written value is read up to what ends it, a comma, a bracket or a line end,
and the lines come together again as the entries that they were written from.

* `Toml.readsBack_writeString`, `Toml.readsBack_writeStrings`, `Toml.readsBack_digits` : strings,
  arrays of them and numbers are read back;
* `Toml.readStatements_line` : a line is read as the assignment that it was written from;
* `Toml.read?_lines` : lines with different keys are read as their entries, in their order.
-/
import FieldTree.Proofs.Numerals
import FieldTree.Proofs.Strings
import FieldTree.Toml.Document

namespace FieldTree.Toml

/-! ## Values that are read back -/

/-- What may stand behind a value: a comma, a closing bracket, a line end or nothing. -/
def Ends (tail : List Char) : Prop := ∀ c ∈ tail.head?, c = ',' ∨ c = ']' ∨ c = '\n'

/-- The characters that are not passed over before a value: they are no blanks, line ends or
starts of comments. -/
def Solid (c : Char) : Prop := isSpace c = false ∧ c ∉ ['\n', '\r', '#']

instance (c : Char) : Decidable (Solid c) := inferInstanceAs (Decidable (_ ∧ _))

/-- A written value that is read back, whatever ends it, where arrays may be nested some levels
deep. -/
structure ReadsBack (room : Nat) (written : List Char) (v : Value) : Prop where
  start : ∃ c rest, written = c :: rest ∧ Solid c ∧ c ≠ ']'
  read : ∀ tail, Ends tail →
    (readValue room (written ++ tail)).map Taken.pair = some (v, tail)

theorem Ends.head?_ne {tail : List Char} (h : Ends tail) (q : Quoting) :
    tail.head? ≠ some q.mark := by
  intro hmark
  rcases h _ hmark with heq | heq | heq <;> cases q <;> exact absurd heq (by decide)

theorem Ends.isWordChar {tail : List Char} (h : Ends tail) :
    ∀ c ∈ tail.head?, isWordChar c = false := by
  intro c hc
  rcases h c hc with rfl | rfl | rfl <;> decide

/-! ## Strings and numbers -/

theorem readValue_string {q : Quoting} {rest s tail : List Char} (room : Nat)
    (h : (readAfterMark q rest).map Taken.pair = some (s, tail)) :
    (readValue room (q.mark :: rest)).map Taken.pair = some (.string (String.ofList s), tail) := by
  obtain ⟨text, hread, rfl, rfl⟩ := Taken.map_pair_eq_some.1 h
  rw [readValue.eq_def]
  cases q with
  | basic =>
    simp only [Quoting.mark, hread, if_true]
    rfl
  | literal =>
    simp only [Quoting.mark, hread, if_true]
    rfl

/-- **A written string is read back**, as deep as it may stand. -/
theorem readsBack_writeString (room : Nat) (s : String) :
    ReadsBack room (writeString s) (.string s) := by
  obtain ⟨q, w, hwrite, hread⟩ := readAfterMark_writeString s
  constructor
  · refine ⟨q.mark, w, hwrite, ?_⟩
    cases q <;> decide
  · intro tail htail
    have hvalue := readValue_string room (hread tail (htail.head?_ne q))
    rw [String.ofList_toList] at hvalue
    rw [hwrite]
    exact hvalue

/-- **The digits of a number in range are read back.** -/
theorem readsBack_digits (room : Nat) {n : Nat} (h : (n : Int) ≤ greatestInteger) :
    ReadsBack room (Decimal.digits n) (.integer n) := by
  obtain ⟨c, rest, hdigits, hdigit⟩ := Decimal.digits_eq_cons n
  have hne : ∀ d, d.isDigit = false → c ≠ d := by
    rintro d hd rfl
    exact Bool.eq_false_iff.1 hd hdigit
  constructor
  · refine ⟨c, rest, hdigits, ⟨?_, ?_⟩, hne ']' (by decide)⟩
    · simp [isSpace, hne ' ' (by decide), hne '\t' (by decide)]
    · simp [hne '\n' (by decide), hne '\r' (by decide), hne '#' (by decide)]
  · intro tail htail
    rw [← readScalar_digits h htail.isWordChar, hdigits, List.cons_append, readValue.eq_def]
    simp only [if_neg (hne '"' (by decide)), if_neg (hne '\'' (by decide)),
      if_neg (hne '[' (by decide)), if_neg (hne '\x7b' (by decide))]

/-! ## Arrays -/

/-- Blanks and line feeds before an element are passed over. -/
theorem dropTrivia_blank {c : Char} (h : isSpace c = true ∨ c = '\n') (rest : List Char) :
    dropTrivia (c :: rest) = dropTrivia rest := by
  rw [dropTrivia, if_pos]
  rcases h with hspace | rfl
  · simp [hspace]
  · simp

/-- Nothing is passed over before an element, a comma or a bracket. -/
theorem Solid.dropTrivia_cons {c : Char} (h : Solid c) (rest : List Char) :
    dropTrivia (c :: rest) = c :: rest := by
  obtain ⟨hnewline, hreturn, hcomment⟩ : c ≠ '\n' ∧ c ≠ '\r' ∧ c ≠ '#' := by simpa using h.2
  rw [dropTrivia, if_neg (by simp [h.1, hnewline, hreturn]), if_neg (by simp [hcomment])]

section Elements

variable {readOne : ValueReader} {s mid more rest : List Char} {c : Char} {v : Value}
  {vs : List Value}

theorem readElements_close (h : dropTrivia s = ']' :: rest) :
    (readElements readOne s).map Taken.pair = some ([], rest) := by
  rw [readElements]
  simp only
  split
  · next hnil =>
    rw [h] at hnil
    cases hnil
  · next heq =>
    rw [h] at heq
    cases heq
    rfl

theorem readElements_last (hs : dropTrivia s = c :: more) (hc : c ≠ ']')
    (hfirst : (readOne (c :: more)).map Taken.pair = some (v, mid))
    (hmid : dropTrivia mid = ']' :: rest) :
    (readElements readOne s).map Taken.pair = some ([v], rest) := by
  obtain ⟨first, hread, rfl, rfl⟩ := Taken.map_pair_eq_some.1 hfirst
  rw [readElements]
  simp only
  split
  · next hnil =>
    rw [hs] at hnil
    cases hnil
  · next heq =>
    rw [hs] at heq
    cases heq
    rw [if_neg hc]
    simp only [hread]
    split
    · next heq =>
      rw [hmid] at heq
      cases heq
    · next heq =>
      rw [hmid] at heq
      cases heq
      rfl
    · next hnone => exact absurd hmid (hnone rest)

theorem readElements_more {after : List Char} (hs : dropTrivia s = c :: more) (hc : c ≠ ']')
    (hfirst : (readOne (c :: more)).map Taken.pair = some (v, mid))
    (hmid : dropTrivia mid = ',' :: after)
    (hmore : (readElements readOne after).map Taken.pair = some (vs, rest)) :
    (readElements readOne s).map Taken.pair = some (v :: vs, rest) := by
  obtain ⟨first, hread, rfl, rfl⟩ := Taken.map_pair_eq_some.1 hfirst
  obtain ⟨others, hothers, rfl, rfl⟩ := Taken.map_pair_eq_some.1 hmore
  rw [readElements]
  simp only
  split
  · next hnil =>
    rw [hs] at hnil
    cases hnil
  · next heq =>
    rw [hs] at heq
    cases heq
    rw [if_neg hc]
    simp only [hread]
    split
    · next heq =>
      rw [hmid] at heq
      cases heq
      simp only [hothers]
      rfl
    · next heq =>
      rw [hmid] at heq
      cases heq
    · next hnone _ => exact absurd hmid (hnone after)

end Elements

theorem readValue_array {room : Nat} {rest tail : List Char} {vs : List Value}
    (h : (readElements (readValue room) rest).map Taken.pair = some (vs, tail)) :
    (readValue (room + 1) ('[' :: rest)).map Taken.pair = some (.array vs, tail) := by
  obtain ⟨elements, hread, rfl, rfl⟩ := Taken.map_pair_eq_some.1 h
  rw [readValue.eq_def]
  simp only [hread]
  rfl

theorem ends_cons {c : Char} (h : c = ',' ∨ c = ']' ∨ c = '\n') (rest : List Char) :
    Ends (c :: rest) := by
  intro d hd
  cases hd
  exact h

section ReadsBack

variable {room : Nat} {written s rest : List Char} {v : Value} {vs : List Value}

/-- A single element is read up to the bracket behind it. -/
theorem ReadsBack.readElements_last (h : ReadsBack room written v)
    (hs : dropTrivia s = dropTrivia (written ++ ']' :: rest)) :
    (readElements (readValue room) s).map Taken.pair = some ([v], rest) := by
  obtain ⟨c, more, rfl, hsolid, hc⟩ := h.start
  have hfirst := h.read _ (ends_cons (.inr (.inl rfl)) rest)
  rw [List.cons_append, hsolid.dropTrivia_cons] at hs
  exact Toml.readElements_last hs hc hfirst (Solid.dropTrivia_cons (by decide) rest)

/-- An element is read up to the comma behind it, and the others after it. -/
theorem ReadsBack.readElements_more {after : List Char} (h : ReadsBack room written v)
    (hs : dropTrivia s = dropTrivia (written ++ ',' :: after))
    (hmore : (readElements (readValue room) after).map Taken.pair = some (vs, rest)) :
    (readElements (readValue room) s).map Taken.pair = some (v :: vs, rest) := by
  obtain ⟨c, more, rfl, hsolid, hc⟩ := h.start
  have hfirst := h.read _ (ends_cons (.inl rfl) after)
  rw [List.cons_append, hsolid.dropTrivia_cons] at hs
  exact Toml.readElements_more hs hc hfirst (Solid.dropTrivia_cons (by decide) after) hmore

end ReadsBack

/-- An array with a line for each string is read after its bracket. -/
theorem readElements_lines (room : Nat) (texts : List String) (tail : List Char) :
    (readElements (readValue room) ('\n' :: (texts.flatMap
        (fun s => [' ', ' ', ' ', ' '] ++ writeString s ++ [',', '\n'])
          ++ ']' :: tail))).map Taken.pair
      = some (texts.map Value.string, tail) := by
  induction texts with
  | nil =>
    refine readElements_close ?_
    rw [dropTrivia_blank (.inr rfl)]
    exact Solid.dropTrivia_cons (by decide) tail
  | cons s texts ih =>
    rw [List.map_cons]
    refine (readsBack_writeString room s).readElements_more ?_ ih
    -- The line feed and the four blanks in front of the string are passed over.
    simp only [List.flatMap_cons, List.append_assoc, List.cons_append, List.nil_append]
    rw [dropTrivia_blank (.inr rfl)]
    iterate 4 rw [dropTrivia_blank (.inl rfl)]

/-- **A written array of strings is read back.** -/
theorem readsBack_writeStrings (room : Nat) (texts : List String) :
    ReadsBack (room + 1) (writeStrings texts) (.array (texts.map .string)) := by
  constructor
  · match texts with
    | [] => exact ⟨'[', _, rfl, by decide⟩
    | [only] => exact ⟨'[', _, rfl, by decide⟩
    | _ :: _ :: _ => exact ⟨'[', _, rfl, by decide⟩
  · intro tail htail
    match texts with
    | [] => exact readValue_array (readElements_close (Solid.dropTrivia_cons (by decide) tail))
    | [only] =>
      have hread : (readElements (readValue room) (writeString only ++ ']' :: tail)).map Taken.pair
          = some ([.string only], tail) := (readsBack_writeString room only).readElements_last rfl
      rw [← List.singleton_append (l := tail), ← List.append_assoc] at hread
      exact readValue_array hread
    | s :: t :: texts =>
      have hread := readElements_lines room (s :: t :: texts) tail
      have hwrite : writeStrings (s :: t :: texts) ++ tail
          = '[' :: '\n' :: ((s :: t :: texts).flatMap
            (fun s => [' ', ' ', ' ', ' '] ++ writeString s ++ [',', '\n']) ++ ']' :: tail) := by
        simp [writeStrings]
      rw [hwrite]
      exact readValue_array hread

/-! ## One step of each reader of lines -/

theorem readKeys_last {s mid rest : List Char} {key : String}
    (hkey : (readKey (dropSpace s)).map Taken.pair = some (key, mid))
    (hrest : dropSpace mid = rest) (hpoint : rest.head? ≠ some '.') :
    (readKeys s).map Taken.pair = some (⟨[], key⟩, rest) := by
  obtain ⟨first, hread, rfl, rfl⟩ := Taken.map_pair_eq_some.1 hkey
  subst hrest
  rw [readKeys, hread]
  simp only
  split
  · next more heq => exact absurd (by rw [heq]; rfl) hpoint
  · rfl

theorem readKeyPath_of {s rest : List Char} {key : String}
    (h : (readKeys s).map Taken.pair = some (⟨[], key⟩, rest)) :
    (readKeyPath s).map Taken.pair = some (⟨[], key⟩, rest) := by
  obtain ⟨path, hread, hvalue, rfl⟩ := Taken.map_pair_eq_some.1 h
  have hshort : path.value.parents.length + 1 < pathLimit := by
    have hlimit : 1 < pathLimit := by decide
    rw [hvalue]
    exact hlimit
  rw [readKeyPath, hread, Option.filter_some, if_pos (decide_eq_true hshort), ← hvalue]
  rfl

theorem readAssignment_of {readOne : ValueReader} {s mid tail : List Char} {key : KeyPath}
    {v : Value} (hkey : (readKeyPath s).map Taken.pair = some (key, '=' :: mid))
    (h : (readOne (dropSpace mid)).map Taken.pair = some (v, tail)) :
    (readAssignment readOne s).map Taken.pair = some ((key, v), dropSpace tail) := by
  obtain ⟨path, hread, rfl, hrest⟩ := Taken.map_pair_eq_some.1 hkey
  obtain ⟨value, hvalue, rfl, rfl⟩ := Taken.map_pair_eq_some.1 h
  rw [readAssignment, hread]
  simp only
  split
  · next heq =>
    rw [hrest] at heq
    cases heq
    rw [hvalue]
    rfl
  · next hnone => exact absurd hrest (hnone mid)

theorem readStatement_assign {s tail : List Char} {key : KeyPath} {v : Value}
    (hs : s.head? ≠ some '[')
    (h : (readAssignment (readValue nestingLimit) s).map Taken.pair = some ((key, v), tail)) :
    (readStatement s).map Taken.pair = some (.assign key v, tail) := by
  obtain ⟨pair, hread, hvalue, rfl⟩ := Taken.map_pair_eq_some.1 h
  rw [readStatement.eq_def]
  split
  · exact absurd rfl hs
  · exact absurd rfl hs
  · rw [hread, Option.map_some, Option.map_some, Taken.pair_map, hvalue]

theorem readStatements_of {s mid rest : List Char} {statement : Statement} (hs : s ≠ [])
    (h : (readStatement (dropSpace s)).map Taken.pair = some (statement, mid))
    (hline : afterLine mid = some rest) :
    readStatements s = (readStatements rest).map (statement :: ·) := by
  obtain ⟨c, cs, rfl⟩ := List.exists_cons_of_ne_nil hs
  obtain ⟨first, hread, rfl, rfl⟩ := Taken.map_pair_eq_some.1 h
  rw [readStatements, hread]
  simp only
  split
  · next hnone =>
    rw [hline] at hnone
    cases hnone
  · next heq =>
    rw [hline] at heq
    cases heq
    rfl

/-! ## Lines -/

/-- A key that is written as it is. -/
def IsBare (key : String) : Prop := key.toList ≠ [] ∧ key.toList.all isBareChar = true

instance (key : String) : Decidable (IsBare key) := inferInstanceAs (Decidable (_ ∧ _))

theorem ne_of_isBareChar {c d : Char} (hc : isBareChar c = true) (hd : isBareChar d = false) :
    c ≠ d := by
  rintro rfl
  exact Bool.eq_false_iff.1 hd hc

theorem isSpace_of_isBareChar {c : Char} (h : isBareChar c = true) : isSpace c = false := by
  simp [isSpace, ne_of_isBareChar h (by decide : isBareChar ' ' = false),
    ne_of_isBareChar h (by decide : isBareChar '\t' = false)]

theorem IsBare.start {key : String} (h : IsBare key) :
    ∃ c rest, key.toList = c :: rest ∧ isBareChar c = true := by
  obtain ⟨c, rest, heq⟩ := List.exists_cons_of_ne_nil h.1
  exact ⟨c, rest, heq, List.all_eq_true.1 h.2 c (heq ▸ List.mem_cons_self)⟩

/-- A line with a bare key starts with no other character. -/
theorem IsBare.head?_append_ne {key : String} (h : IsBare key) {d : Char}
    (hd : isBareChar d = false) (rest : List Char) : (key.toList ++ rest).head? ≠ some d := by
  obtain ⟨c, more, heq, hc⟩ := h.start
  rw [heq]
  exact fun hhead => ne_of_isBareChar hc hd (Option.some.inj hhead)

/-- No blanks are dropped in front of a bare key. -/
theorem IsBare.dropSpace_append {key : String} (h : IsBare key) (rest : List Char) :
    dropSpace (key.toList ++ rest) = key.toList ++ rest := by
  obtain ⟨c, more, heq, hc⟩ := h.start
  rw [heq, List.cons_append, dropSpace_cons (isSpace_of_isBareChar hc)]

theorem IsBare.readKey_append {key : String} (h : IsBare key) {d : Char}
    (hd : isBareChar d = false) (rest : List Char) :
    (readKey (key.toList ++ d :: rest)).map Taken.pair = some (key, d :: rest) := by
  obtain ⟨c, more, heq, hc⟩ := h.start
  have hbare : ∀ e ∈ more, isBareChar e = true :=
    fun e he => List.all_eq_true.1 h.2 e (heq ▸ List.mem_cons_of_mem c he)
  have hstop : ¬ isBareChar d = true := Bool.eq_false_iff.1 hd
  have htake : (more ++ d :: rest).takeWhile isBareChar = more := by
    rw [List.takeWhile_append_of_pos hbare, List.takeWhile_cons_of_neg hstop, List.append_nil]
  have hdrop : (more ++ d :: rest).dropWhile isBareChar = d :: rest := by
    rw [List.dropWhile_append_of_pos hbare, List.dropWhile_cons_of_neg hstop]
  rw [heq, List.cons_append, readKey, if_neg (ne_of_isBareChar hc (by decide)),
    if_neg (ne_of_isBareChar hc (by decide)), if_pos hc, Option.map_some, Taken.pair_mk, htake,
    hdrop, ← heq, String.ofList_toList]

/-- A bare key before an equals sign is a path of its own. -/
theorem IsBare.readKeyPath_append {key : String} (h : IsBare key) (rest : List Char) :
    (readKeyPath (key.toList ++ ' ' :: '=' :: rest)).map Taken.pair
      = some (⟨[], key⟩, '=' :: rest) := by
  have hkey := h.readKey_append (by decide : isBareChar ' ' = false) ('=' :: rest)
  rw [← h.dropSpace_append] at hkey
  exact readKeyPath_of (readKeys_last hkey rfl nofun)

/-- **A line is read as the assignment that it was written from**, and the lines below it after
it. -/
theorem readStatements_line {key : String} {written : List Char} {v : Value} (hkey : IsBare key)
    (hvalue : ReadsBack nestingLimit written v) (tail : List Char) :
    readStatements (writeLine key written ++ tail)
      = (readStatements tail).map (.assign ⟨[], key⟩ v :: ·) := by
  have hline : writeLine key written ++ tail
      = key.toList ++ ' ' :: '=' :: ' ' :: (written ++ '\n' :: tail) := by
    simp [writeLine]
  have hblank : dropSpace (' ' :: (written ++ '\n' :: tail)) = written ++ '\n' :: tail := by
    obtain ⟨c, rest, heq, hsolid, -⟩ := hvalue.start
    rw [heq]
    exact dropSpace_cons hsolid.1 _
  have hread := hvalue.read _ (ends_cons (.inr (.inr rfl)) tail)
  rw [← hblank] at hread
  have hassign := readAssignment_of (hkey.readKeyPath_append _) hread
  have hstatement := readStatement_assign (hkey.head?_append_ne (by decide) _) hassign
  rw [← hkey.dropSpace_append] at hstatement
  rw [hline]
  exact readStatements_of (by simp) hstatement rfl

/-! ## Entries -/

/-- A new key with a value stands behind the others. -/
theorem assign_new {body : Body} {key : String} (h : body.lookup key = none) (v : Value) :
    body.assign ⟨[], key⟩ v = some (body ++ [(key, .value v)]) := by
  simp only [Body.assign, Body.within, h]
  rfl

/-- Values with new keys, all different, stand behind the others in their order. -/
theorem assignAll_new {entries : Entries} {body : Body}
    (hnew : ∀ e ∈ entries, body.lookup e.1 = none) (hnodup : (entries.map Prod.fst).Nodup) :
    body.assignAll (entries.map fun e => (⟨[], e.1⟩, e.2))
      = some (body ++ entries.map fun e => (e.1, .value e.2)) := by
  induction entries generalizing body with
  | nil => exact congrArg some (List.append_nil body).symm
  | cons e entries ih =>
    obtain ⟨he, hentries⟩ := List.forall_mem_cons.1 hnew
    obtain ⟨hfresh, hnodup⟩ := List.nodup_cons.1 hnodup
    have hnew' : ∀ d ∈ entries, (body ++ [(e.1, Draft.value e.2)]).lookup d.1 = none := by
      intro d hd
      have hne : (d.1 == e.1) = false := by
        refine beq_eq_false_iff_ne.2 fun heq => hfresh ?_
        rw [← heq]
        exact List.mem_map_of_mem hd
      rw [List.lookup_append, hentries d hd, Option.none_or, List.lookup_cons, hne]
      rfl
    have hrest := ih hnew' hnodup
    rw [Body.assignAll] at hrest ⊢
    rw [List.map_cons, List.foldlM_cons, assign_new he]
    simp only [Option.bind_eq_bind, Option.bind_some]
    rw [hrest, List.append_assoc]
    rfl

theorem finishEntries_values (entries : Entries) :
    finishEntries (entries.map fun e => (e.1, .value e.2)) = entries := by
  induction entries with
  | nil => rfl
  | cons e entries ih =>
    rw [List.map_cons, finishEntries, ih]
    rfl

theorem sections_assign (entries : Entries) :
    sections (entries.map fun e => .assign ⟨[], e.1⟩ e.2)
      = (entries.map fun e => (⟨[], e.1⟩, e.2), []) := by
  induction entries with
  | nil => rfl
  | cons e entries ih => rw [List.map_cons, sections, ih, List.map_cons]

/-- Assignments to different keys make up their entries. -/
theorem assemble_assign {entries : Entries} (hnodup : (entries.map Prod.fst).Nodup) :
    assemble (entries.map fun e => .assign ⟨[], e.1⟩ e.2) = some entries := by
  have hbody : Body.assignAll [] (entries.map fun e => (⟨[], e.1⟩, e.2))
      = some (entries.map fun e => (e.1, .value e.2)) := assignAll_new (fun _ _ => rfl) hnodup
  simp only [assemble, sections_assign, hbody, List.foldlM_nil, Option.bind_eq_bind,
    Option.bind_some, Option.pure_def, finishEntries_values]

/-! ## Documents -/

/-- A line that gives a key a value, and is read back. -/
structure Line where
  key : String
  written : List Char
  value : Value
  bare : IsBare key
  reads : ReadsBack nestingLimit written value

namespace Line

/-- The characters of a line. -/
def text (l : Line) : List Char := writeLine l.key l.written

/-- The entry that a line makes. -/
def entry (l : Line) : String × Value := (l.key, l.value)

end Line

theorem readStatements_lines (lines : List Line) :
    readStatements (lines.flatMap Line.text)
      = some (lines.map fun l => .assign ⟨[], l.key⟩ l.value) := by
  induction lines with
  | nil => rw [List.flatMap_nil, readStatements]; rfl
  | cons l lines ih =>
    rw [List.flatMap_cons, Line.text, readStatements_line l.bare l.reads, ih]
    rfl

/-- No byte order mark stands in front of lines. -/
theorem flatMap_text_ne (lines : List Line) (rest : List Char) :
    lines.flatMap Line.text ≠ '\ufeff' :: rest := by
  cases lines with
  | nil => exact nofun
  | cons l lines =>
    intro heq
    have hhead := congrArg List.head? heq
    rw [List.flatMap_cons, Line.text, writeLine, List.append_assoc, List.append_assoc,
      List.append_assoc] at hhead
    exact l.bare.head?_append_ne (by decide) _ hhead

/-- **Lines with different keys are read as their entries**, in their order. -/
theorem read?_lines {lines : List Line} (hnodup : (lines.map Line.key).Nodup) :
    read? (String.ofList (lines.flatMap Line.text)) = some (lines.map Line.entry) := by
  have hassigns : readStatements (lines.flatMap Line.text)
      = some ((lines.map Line.entry).map fun e => .assign ⟨[], e.1⟩ e.2) := by
    rw [readStatements_lines, List.map_map]
    rfl
  have hkeys : ((lines.map Line.entry).map Prod.fst).Nodup := by
    rw [List.map_map]
    exact hnodup
  rw [read?, String.toList_ofList]
  split
  · next rest heq => exact absurd heq (flatMap_text_ne lines rest)
  · rw [hassigns, Option.bind_some, assemble_assign hkeys]

end FieldTree.Toml
