/-
# The tokens of a text

`Lexes` says how a text is made of tokens: blanks count for nothing, a mark is one character,
and a name goes on as long as its characters do.  The scanner finds exactly the tokens that a
text is made of, and blanks between two tokens may come and go.

* `TypeExpr.lex_eq_some_iff` : the scanner reads a whole text as the tokens it is made of;
* `TypeExpr.Lexes.append`, `TypeExpr.Lexes.split` : texts joined between two tokens are made of
  the tokens of both;
* `TypeExpr.lexes_insert_blanks` : blanks between two tokens do not matter.
-/
import FieldTree.TypeExpr.Token
import Mathlib.Data.List.Basic

namespace FieldTree.TypeExpr

/-! ## Kinds of characters -/

theorem continuesName_of_startsName {c : Char} (h : startsName c = true) :
    continuesName c = true := by
  rw [continuesName, h]
  rfl

/-- No blank goes on a name. -/
theorem continuesName_of_isSpace {c : Char} (h : isSpace c = true) : continuesName c = false := by
  simp only [isSpace, Bool.or_eq_true, beq_iff_eq] at h
  rcases h with ((rfl | rfl) | rfl) | rfl <;> decide

/-- No mark goes on a name. -/
theorem continuesName_of_mark? {c : Char} {m : Token} (h : Token.mark? c = some m) :
    continuesName c = false := by
  unfold Token.mark? at h
  split at h
  case h_9 => cases h
  all_goals decide

/-- No mark is a blank. -/
theorem isSpace_of_mark? {c : Char} {m : Token} (h : Token.mark? c = some m) :
    isSpace c = false := by
  unfold Token.mark? at h
  split at h
  case h_9 => cases h
  all_goals decide

theorem isSpace_of_startsName {c : Char} (h : startsName c = true) : isSpace c = false := by
  by_contra hspace
  rw [Bool.not_eq_false] at hspace
  have := continuesName_of_isSpace hspace
  rw [continuesName_of_startsName h] at this
  cases this

theorem mark?_of_startsName {c : Char} (h : startsName c = true) : Token.mark? c = none := by
  cases hm : Token.mark? c with
  | none => rfl
  | some m =>
    have := continuesName_of_mark? hm
    rw [continuesName_of_startsName h] at this
    cases this

/-! ## Texts made of tokens -/

/-- A text is made of some tokens. -/
inductive Lexes : List Char → List Token → Prop where
  | done : Lexes [] []
  | space {c : Char} {s : List Char} {ts : List Token} :
      isSpace c = true → Lexes s ts → Lexes (c :: s) ts
  | mark {c : Char} {m : Token} {s : List Char} {ts : List Token} :
      Token.mark? c = some m → Lexes s ts → Lexes (c :: s) (m :: ts)
  | name {word : String} {s : List Char} {ts : List Token} :
      IsName word → (∀ c ∈ s.head?, continuesName c = false) → Lexes s ts →
      Lexes (word.toList ++ s) (.name word :: ts)

/-- Every character of a name goes on a name. -/
theorem IsName.all {word : String} (h : IsName word) :
    ∀ c ∈ word.toList, continuesName c = true := by
  obtain ⟨c, rest, hword, hc, hrest⟩ := h
  rw [hword, List.forall_mem_cons]
  exact ⟨continuesName_of_startsName hc, List.all_eq_true.1 hrest⟩

/-! ## The scanner, character by character -/

/-- The scanner by its first character that is no blank. -/
theorem scan_eq (s : List Char) :
    scan s = match s.dropWhile isSpace with
      | [] => ⟨[], []⟩
      | c :: rest =>
        match Token.mark? c with
        | some mark => (scan rest).cons ⟨mark, c :: rest⟩
        | none =>
          if startsName c then
            (scan (rest.dropWhile continuesName)).cons
              ⟨.name (String.ofList (c :: rest.takeWhile continuesName)), c :: rest⟩
          else ⟨[], c :: rest⟩ := by
  rw [scan]
  split
  · next hnil => rw [hnil]
  · next hcons => exact hcons.symm ▸ rfl

theorem scan_nil : scan [] = ⟨[], []⟩ := scan_eq []

theorem scan_space {c : Char} {s : List Char} (h : isSpace c = true) : scan (c :: s) = scan s := by
  rw [scan_eq, scan_eq s, List.dropWhile_cons, if_pos h]

theorem dropWhile_isSpace_cons {c : Char} (s : List Char) (h : isSpace c = false) :
    (c :: s).dropWhile isSpace = c :: s := by
  rw [List.dropWhile_cons, h]
  rfl

theorem scan_mark {c : Char} {m : Token} {s : List Char} (h : Token.mark? c = some m) :
    scan (c :: s) = (scan s).cons ⟨m, c :: s⟩ := by
  rw [scan_eq, dropWhile_isSpace_cons s (isSpace_of_mark? h)]
  simp only [h]

theorem scan_name {c : Char} {s : List Char} (h : startsName c = true) :
    scan (c :: s) = (scan (s.dropWhile continuesName)).cons
      ⟨.name (String.ofList (c :: s.takeWhile continuesName)), c :: s⟩ := by
  rw [scan_eq, dropWhile_isSpace_cons s (isSpace_of_startsName h)]
  simp only [mark?_of_startsName h, h, if_true]

theorem scan_stuck {c : Char} {s : List Char} (hspace : isSpace c = false)
    (hmark : Token.mark? c = none) (hname : startsName c = false) :
    scan (c :: s) = ⟨[], c :: s⟩ := by
  rw [scan_eq, dropWhile_isSpace_cons s hspace]
  simp only [hmark, hname, Bool.false_eq_true, if_false]

@[simp] theorem tokens_cons (lexeme : Lexeme) (scanned : Scan) :
    (scanned.cons lexeme).tokens = lexeme.token :: scanned.tokens := rfl

@[simp] theorem stuck_cons (lexeme : Lexeme) (scanned : Scan) :
    (scanned.cons lexeme).stuck = scanned.stuck := rfl

/-- Induction along a scan: a text is at its end, or starts with a blank, a mark, a name or a
character that starts no token. -/
theorem scan_induction {motive : List Char → Prop} (nil : motive [])
    (space : ∀ c s, isSpace c = true → motive s → motive (c :: s))
    (mark : ∀ c m s, Token.mark? c = some m → motive s → motive (c :: s))
    (name : ∀ c s, startsName c = true → motive (s.dropWhile continuesName) → motive (c :: s))
    (stuck : ∀ c s, isSpace c = false → Token.mark? c = none → startsName c = false →
      motive (c :: s)) (s : List Char) : motive s := by
  match s with
  | [] => exact nil
  | c :: s =>
    by_cases hspace : isSpace c = true
    · exact space c s hspace (scan_induction nil space mark name stuck s)
    · rw [Bool.not_eq_true] at hspace
      cases hmark : Token.mark? c with
      | some m => exact mark c m s hmark (scan_induction nil space mark name stuck s)
      | none =>
        by_cases hname : startsName c = true
        · exact name c s hname (scan_induction nil space mark name stuck _)
        · rw [Bool.not_eq_true] at hname
          exact stuck c s hspace hmark hname
termination_by s.length
decreasing_by
  · exact Nat.lt_succ_self _
  · exact Nat.lt_succ_of_le (length_dropWhile_le continuesName s)
  · exact Nat.lt_succ_self _

/-- The characters of a name that starts a text. -/
theorem isName_takeWhile {c : Char} (s : List Char) (h : startsName c = true) :
    IsName (String.ofList (c :: s.takeWhile continuesName)) :=
  ⟨c, _, String.toList_ofList, h, List.all_takeWhile⟩

/-- No name goes on behind its characters. -/
theorem continuesName_head?_dropWhile (s : List Char) :
    ∀ d ∈ (s.dropWhile continuesName).head?, continuesName d = false := by
  intro d hd
  have hnot := List.head?_dropWhile_not continuesName s
  rwa [Option.mem_def.1 hd] at hnot

/-- Nothing is dropped from a text that goes on no name. -/
theorem dropWhile_continuesName {s : List Char} (h : ∀ c ∈ s.head?, continuesName c = false) :
    s.dropWhile continuesName = s := by
  cases s with
  | nil => rfl
  | cons c s =>
    rw [List.dropWhile_cons, h c rfl]
    rfl

/-! ## The scanner finds the tokens -/

/-- A text that the scanner reads to its end is made of the tokens that it finds. -/
theorem lexes_scan (s : List Char) (h : (scan s).stuck = []) : Lexes s (scan s).tokens := by
  induction s using scan_induction with
  | nil =>
    rw [scan_nil]
    exact .done
  | space c s hspace ih =>
    rw [scan_space hspace] at h ⊢
    exact .space hspace (ih h)
  | mark c m s hmark ih =>
    rw [scan_mark hmark] at h ⊢
    exact .mark hmark (ih h)
  | name c s hname ih =>
    rw [scan_name hname] at h ⊢
    have hlexes := Lexes.name (isName_takeWhile s hname) (continuesName_head?_dropWhile s) (ih h)
    rw [String.toList_ofList, List.cons_append, List.takeWhile_append_dropWhile] at hlexes
    exact hlexes
  | stuck c s hspace hmark hname =>
    rw [scan_stuck hspace hmark hname] at h
    cases h

/-- The scanner reads a text that is made of tokens to its end and finds them. -/
theorem Lexes.scan {s : List Char} {ts : List Token} (h : Lexes s ts) :
    (scan s).stuck = [] ∧ (scan s).tokens = ts := by
  induction h with
  | done => rw [scan_nil]; exact ⟨rfl, rfl⟩
  | space hspace _ ih => rwa [scan_space hspace]
  | mark hmark _ ih => rw [scan_mark hmark, tokens_cons, stuck_cons, ih.1, ih.2]; exact ⟨rfl, rfl⟩
  | @name word s ts hword hend _ ih =>
    obtain ⟨c, rest, hchars, hc, hrest⟩ := hword
    rw [List.all_eq_true] at hrest
    have htake : s.takeWhile continuesName = [] := by
      cases s with
      | nil => rfl
      | cons d s => rw [List.takeWhile_cons, hend d rfl]; rfl
    rw [hchars, List.cons_append, scan_name hc, List.takeWhile_append_of_pos hrest,
      List.dropWhile_append_of_pos hrest, htake, dropWhile_continuesName hend, List.append_nil,
      ← hchars, String.ofList_toList, tokens_cons, stuck_cons, ih.1, ih.2]
    exact ⟨rfl, rfl⟩

/-- **The scanner reads a whole text as the tokens that it is made of.** -/
theorem lex_eq_some_iff {s : String} {ts : List Token} :
    lex s = some ts ↔ Lexes s.toList ts := by
  rw [lex]
  constructor
  · intro h
    split at h
    · next hstuck =>
      cases h
      exact lexes_scan s.toList hstuck
    · cases h
  · intro h
    obtain ⟨hstuck, htokens⟩ := h.scan
    rw [if_pos hstuck, htokens]

/-! ## What is left unread -/

/-- Each lexeme of a text has a text of its own. -/
theorem source_ne_nil (s : List Char) : ∀ lexeme ∈ (scan s).lexemes, lexeme.source ≠ [] := by
  induction s using scan_induction with
  | nil =>
    rw [scan_nil]
    nofun
  | space c s hspace ih => rwa [scan_space hspace]
  | mark c m s hmark ih =>
    rw [scan_mark hmark]
    exact List.forall_mem_cons.2 ⟨List.cons_ne_nil _ _, ih⟩
  | name c s hname ih =>
    rw [scan_name hname]
    exact List.forall_mem_cons.2 ⟨List.cons_ne_nil _ _, ih⟩
  | stuck c s hspace hmark hname =>
    rw [scan_stuck hspace hmark hname]
    nofun

/-- Nothing is left unread exactly if all tokens are read and the scanner was not stuck. -/
theorem sourceOfLast_eq_nil_iff {s : List Char} {count : Nat}
    (hcount : count ≤ (scan s).tokens.length) :
    (scan s).sourceOfLast count = [] ↔ count = 0 ∧ (scan s).stuck = [] := by
  rw [Scan.tokens, List.length_map] at hcount
  rw [Scan.sourceOfLast]
  cases hdrop : (scan s).lexemes.drop ((scan s).lexemes.length - count) with
  | nil =>
    have hlen := congrArg List.length hdrop
    rw [List.length_drop, List.length_nil] at hlen
    have hzero : count = 0 := by omega
    exact ⟨fun h => ⟨hzero, h⟩, fun h => h.2⟩
  | cons lexeme rest =>
    have hmem : lexeme ∈ (scan s).lexemes := by
      apply List.mem_of_mem_drop
      rw [hdrop]
      exact List.mem_cons_self
    have hlen := congrArg List.length hdrop
    rw [List.length_drop, List.length_cons] at hlen
    constructor
    · intro h
      exact absurd h (source_ne_nil s lexeme hmem)
    · intro h
      omega

/-! ## Joining texts between two tokens -/

/-- Two texts meet between tokens: no name can run across. -/
def Apart (a b : List Char) : Prop :=
  ∀ c ∈ a.getLast?, ∀ d ∈ b.head?, continuesName c = true → continuesName d = false

theorem Apart.of_cons {c : Char} {a b : List Char} (h : Apart (c :: a) b) : Apart a b := by
  intro d hd
  cases a with
  | nil => cases hd
  | cons e a => exact h d (by rwa [List.getLast?_cons_cons])

theorem Apart.of_append {a b d : List Char} (h : Apart (a ++ b) d) : Apart b d := by
  induction a with
  | nil => exact h
  | cons c a ih => exact ih h.of_cons

/-- A text is apart from one that starts with no character of a name. -/
theorem apart_cons {c : Char} (a b : List Char) (h : continuesName c = false) :
    Apart a (c :: b) := by
  intro _ _ d hd _
  obtain rfl : c = d := Option.some.inj hd
  exact h

/-- **Texts that meet between tokens are together made of the tokens of both.** -/
theorem Lexes.append {a b : List Char} {ts us : List Token} (ha : Lexes a ts) (hb : Lexes b us)
    (hab : Apart a b) : Lexes (a ++ b) (ts ++ us) := by
  induction ha with
  | done => exact hb
  | space hspace _ ih => exact .space hspace (ih hab.of_cons)
  | mark hmark _ ih => exact .mark hmark (ih hab.of_cons)
  | @name word s ts hword hend _ ih =>
    rw [List.append_assoc]
    refine .name hword ?_ (ih hab.of_append)
    intro d hd
    cases s with
    | cons e s => exact hend d hd
    | nil =>
      obtain ⟨c, rest, hchars, -, -⟩ := id hword
      have hne : word.toList ≠ [] := by rw [hchars]; exact List.cons_ne_nil _ _
      rw [List.append_nil] at hab
      exact hab _ (List.getLast?_eq_some_getLast hne) d hd (hword.all _ (List.getLast_mem hne))

/-- A name that stands in front of joined texts is within the first one, if no name runs across
and that text is not empty. -/
theorem IsName.eq_append {word : String} {a b s : List Char} (hword : IsName word)
    (hs : a ++ b = word.toList ++ s) (hne : a ≠ []) (hab : Apart a b) :
    ∃ a', a = word.toList ++ a' ∧ s = a' ++ b := by
  rcases List.append_eq_append_iff.1 hs with ⟨w, hw, hb⟩ | hshort
  · cases w with
    | nil => exact ⟨[], by rw [hw, List.append_nil, List.append_nil], hb.symm⟩
    | cons d w =>
      -- The name goes on with the second text, against what the last of the first one says.
      have hall := hword.all
      rw [hw, List.forall_mem_append] at hall
      have hhead := hab _ (List.getLast?_eq_some_getLast hne) d (by rw [hb]; rfl)
        (hall.1 _ (List.getLast_mem hne))
      rw [hall.2 d List.mem_cons_self] at hhead
      cases hhead
  · exact hshort

/-- **The tokens of a text can be divided where no name runs across.** -/
theorem Lexes.split {a b : List Char} {ts : List Token} (h : Lexes (a ++ b) ts)
    (hab : Apart a b) : ∃ us vs, ts = us ++ vs ∧ Lexes a us ∧ Lexes b vs := by
  generalize hs : a ++ b = s at h
  induction h generalizing a with
  | done =>
    obtain ⟨rfl, rfl⟩ := List.append_eq_nil_iff.1 hs
    exact ⟨[], [], rfl, .done, .done⟩
  | @space c s ts hspace hlexes ih =>
    cases a with
    | nil =>
      rw [List.nil_append] at hs
      exact ⟨[], ts, rfl, .done, hs ▸ .space hspace hlexes⟩
    | cons d a =>
      obtain ⟨rfl, hrest⟩ := List.cons.inj hs
      obtain ⟨us, vs, rfl, ha, hb⟩ := ih hab.of_cons hrest
      exact ⟨us, vs, rfl, .space hspace ha, hb⟩
  | @mark c m s ts hmark hlexes ih =>
    cases a with
    | nil =>
      rw [List.nil_append] at hs
      exact ⟨[], m :: ts, rfl, .done, hs ▸ .mark hmark hlexes⟩
    | cons d a =>
      obtain ⟨rfl, hrest⟩ := List.cons.inj hs
      obtain ⟨us, vs, rfl, ha, hb⟩ := ih hab.of_cons hrest
      exact ⟨m :: us, vs, rfl, .mark hmark ha, hb⟩
  | @name word s ts hword hend hlexes ih =>
    by_cases hne : a = []
    · rw [hne, List.nil_append] at hs
      exact ⟨[], _, rfl, hne ▸ .done, hs ▸ .name hword hend hlexes⟩
    · obtain ⟨a, rfl, rfl⟩ := hword.eq_append hs hne hab
      obtain ⟨us, vs, rfl, ha, hb⟩ := ih hab.of_append rfl
      refine ⟨.name word :: us, vs, rfl, .name hword ?_ ha, hb⟩
      intro d hd
      cases a with
      | nil => cases hd
      | cons e a => exact hend d hd

/-- Blanks in front of a text do not matter. -/
theorem lexes_blanks_append {blanks s : List Char} {ts : List Token}
    (hblanks : ∀ c ∈ blanks, isSpace c = true) : Lexes (blanks ++ s) ts ↔ Lexes s ts := by
  induction blanks with
  | nil => rfl
  | cons c blanks ih =>
    rw [List.forall_mem_cons] at hblanks
    rw [← ih hblanks.2, List.cons_append]
    constructor
    · intro h
      have hscan := h.scan
      rw [scan_space hblanks.1] at hscan
      rw [← hscan.2]
      exact lexes_scan _ hscan.1
    · intro h
      exact .space hblanks.1 h

/-- **Blanks between two tokens do not matter.** -/
theorem lexes_insert_blanks {a b blanks : List Char} {ts : List Token} (hab : Apart a b)
    (hblanks : ∀ c ∈ blanks, isSpace c = true) :
    Lexes (a ++ (blanks ++ b)) ts ↔ Lexes (a ++ b) ts := by
  have hab' : Apart a (blanks ++ b) := by
    cases blanks with
    | nil => exact hab
    | cons c blanks =>
      exact apart_cons a _ (continuesName_of_isSpace (hblanks c List.mem_cons_self))
  constructor
  · intro h
    obtain ⟨us, vs, rfl, ha, hb⟩ := h.split hab'
    exact ha.append ((lexes_blanks_append hblanks).1 hb) hab
  · intro h
    obtain ⟨us, vs, rfl, ha, hb⟩ := h.split hab
    exact ha.append ((lexes_blanks_append hblanks).2 hb) hab'

end FieldTree.TypeExpr
