/-
# Written strings are read back

A string is written in one of six forms, with marks inside it that stand as they are, with
escapes, and with a line feed in front that does not count.  Between the writer and the
reader stands the body of a string as a row of pieces, each for one character: what the writer
makes is such a row, and the reader takes any such row apart again.

* `Toml.written_escapeText` : an escaped text is a row of pieces;
* `Toml.readShort_append`, `Toml.readLong_append` : a row of pieces is read up to the marks
  that close it;
* `Toml.readAfterMark_writeString` : a written string is read back, whatever stands behind it
  but a mark.
-/
import FieldTree.Toml.Writer

namespace FieldTree.Toml

/-! ## Digits of base sixteen -/

/-- A digit of base sixteen has its value. -/
theorem digitValue_hexDigit {n : Nat} (h : n < 16) : Decimal.digitValue (hexDigit n) = n := by
  have hall : ∀ m < 16, Decimal.digitValue (hexDigit m) = m := by decide
  exact hall n h

theorem isHexDigit_hexDigit {n : Nat} (h : n < 16) : Decimal.isHexDigit (hexDigit n) = true := by
  have hall : ∀ m < 16, Decimal.isHexDigit (hexDigit m) = true := by decide
  exact hall n h

/-- A code of two digits is read with two zeros in front. -/
theorem readCode_hexDigits {c : Char} (h : c.toNat < 256) (rest : List Char) :
    (readCode 4 ('0' :: '0' :: hexDigit (c.toNat / 16) :: hexDigit (c.toNat % 16) :: rest)).map
      Left.pair = some (c, rest) := by
  have hhigh : c.toNat / 16 < 16 := by omega
  have hlow : c.toNat % 16 < 16 := by omega
  have hcode : Decimal.ofDigits 16 ['0', '0', hexDigit (c.toNat / 16), hexDigit (c.toNat % 16)]
      = c.toNat := by
    have hzero : Decimal.digitValue '0' = 0 := by decide
    simp only [Decimal.ofDigits, List.foldl_cons, List.foldl_nil, hzero, digitValue_hexDigit hhigh,
      digitValue_hexDigit hlow]
    omega
  have hdigits : ['0', '0', hexDigit (c.toNat / 16), hexDigit (c.toNat % 16)].all
      Decimal.isHexDigit = true := by
    have hzero : Decimal.isHexDigit '0' = true := by decide
    simp only [List.all_cons, List.all_nil, hzero, isHexDigit_hexDigit hhigh,
      isHexDigit_hexDigit hlow, Bool.and_self]
  have htake : ('0' :: '0' :: hexDigit (c.toNat / 16) :: hexDigit (c.toNat % 16) :: rest).take 4
      = ['0', '0', hexDigit (c.toNat / 16), hexDigit (c.toNat % 16)] := rfl
  rw [readCode]
  simp only [htake, hcode, hdigits]
  rw [if_pos ⟨rfl, trivial, c.valid⟩, Char.ofNat_toNat]
  rfl

/-! ## Pieces of the body of a string -/

/-- What stands behind a backslash for a character. -/
inductive Escape : List Char → Char → Prop where
  | short {d c : Char} : shortEscape? d = some c → Escape [d] c
  | code {c : Char} : c.toNat < 256 →
      Escape ['u', '0', '0', hexDigit (c.toNat / 16), hexDigit (c.toNat % 16)] c

/-- What stands for a character in the body of a string of some form, wherever it stands. -/
inductive Piece (f : Form) : List Char → Char → Prop where
  | plain {c : Char} : isPlain c = true → c ≠ f.quoting.mark → f.quoting.escapes c = false →
      Piece f [c] c
  | newline : f.long = true → Piece f ['\n'] '\n'
  | escape {w : List Char} {c : Char} : f.quoting = .basic → Escape w c → Piece f ('\\' :: w) c

/-- How many marks in a row may stand as they are. -/
def Form.longest (f : Form) : Nat := if f.long then 2 else 0

/-- The body of a string and the text that it writes, after `run` marks that stand as they
are. -/
inductive Written (f : Form) : Nat → List Char → List Char → Prop where
  | nil {run : Nat} : Written f run [] []
  | mark {run : Nat} {w s : List Char} : run < f.longest → Written f (run + 1) w s →
      Written f run (f.quoting.mark :: w) (f.quoting.mark :: s)
  | piece {run : Nat} {p w s : List Char} {c : Char} : Piece f p c → Written f 0 w s →
      Written f run (p ++ w) (c :: s)

/-- No mark belongs to a line end. -/
theorem mark_ne (q : Quoting) : q.mark ≠ '\n' ∧ q.mark ≠ '\r' := by
  cases q <;> decide

theorem isPlain_ne {c : Char} (h : isPlain c = true) : c ≠ '\n' ∧ c ≠ '\r' := by
  constructor <;> rintro rfl <;> exact absurd h (by decide)

/-- A piece does not start with a mark, and with a line feed only if it stands for one. -/
theorem Piece.start {f : Form} {p : List Char} {c : Char} (h : Piece f p c) :
    ∃ d rest, p = d :: rest ∧ d ≠ f.quoting.mark ∧ d ≠ '\r' ∧ (d = '\n' → c = '\n') := by
  cases h with
  | plain hplain hmark _ => exact ⟨c, [], rfl, hmark, (isPlain_ne hplain).2, id⟩
  | newline _ => exact ⟨'\n', [], rfl, (mark_ne _).1.symm, by decide, fun _ => rfl⟩
  | @escape w _ hbasic _ =>
    refine ⟨'\\', w, rfl, ?_, by decide, fun h => absurd h (by decide)⟩
    rw [hbasic]
    decide

/-! ## What is written is made of pieces -/

/-- A character that does not stand for itself has a small code. -/
theorem toNat_lt_of_not_isPlain {c : Char} (h : isPlain c = false) : c.toNat < 256 := by
  simp only [isPlain, Bool.or_eq_false_iff, Bool.and_eq_false_iff, decide_eq_false_iff_not,
    bne_eq_false_iff_eq] at h
  rcases h.2 with hspace | rfl
  · have hlt : c.toNat < ' '.toNat := Nat.not_le.1 hspace
    exact Nat.lt_trans hlt (by decide)
  · decide

/-- What is written for a character between quotation marks is a piece. -/
theorem piece_escapeChar {c : Char} (long : Bool) (h : c ≠ '"') :
    Piece ⟨.basic, long⟩ (escapeChar long c) c := by
  unfold escapeChar
  split
  · exact .escape rfl (.short rfl)
  · exact .escape rfl (.short rfl)
  · cases long with
    | true => exact .newline rfl
    | false => exact .escape rfl (.short rfl)
  · exact .escape rfl (.short rfl)
  · exact .escape rfl (.short rfl)
  · exact .escape rfl (.short rfl)
  · next hslash =>
    split
    · next hplain => exact .plain hplain h (by simpa [Quoting.escapes] using hslash)
    · next hplain =>
      exact .escape rfl (.code (toNat_lt_of_not_isPlain (Bool.eq_false_iff.2 hplain)))

/-- **An escaped text is a row of pieces, and no more marks in a row stand as they are than
may.** -/
theorem written_escapeText (long : Bool) (run : Nat) (s : List Char) :
    Written ⟨.basic, long⟩ run (escapeText long run s) s := by
  induction s generalizing run with
  | nil => exact .nil
  | cons c rest ih =>
    rw [escapeText]
    split
    · next hmark =>
      subst hmark
      by_cases hrun : (if long then 2 else 0) < run + 1
      · have hescape : Escape ['"'] '"' := .short rfl
        rw [if_pos hrun]
        exact .piece (.escape rfl hescape) (ih 0)
      · rw [if_neg hrun]
        exact .mark (Nat.lt_of_succ_le (Nat.not_lt.1 hrun)) (ih (run + 1))
    · next hmark => exact .piece (piece_escapeChar long hmark) (ih 0)

/-- A text that a form takes as it is is a row of pieces. -/
theorem written_self {f : Form} {run : Nat} {s : List Char}
    (hchars : ∀ c ∈ s, (isPlain c || (f.long && c == '\n')) = true ∧ f.quoting.escapes c = false)
    (hrun : hasRun f.quoting.mark f.longest run s = false) : Written f run s s := by
  induction s generalizing run with
  | nil => exact .nil
  | cons c rest ih =>
    obtain ⟨hc, hrest⟩ := List.forall_mem_cons.1 hchars
    rw [hasRun] at hrun
    split at hrun
    · next hmark =>
      subst hmark
      obtain ⟨hshort, hmore⟩ := Bool.or_eq_false_iff.1 hrun
      exact .mark (Nat.lt_of_succ_le (Nat.not_lt.1 (of_decide_eq_false hshort))) (ih hrest hmore)
    · next hmark =>
      have hpiece : Piece f [c] c := by
        rcases Bool.or_eq_true_iff.1 hc.1 with hplain | hnewline
        · exact .plain hplain hmark hc.2
        · obtain ⟨hlong, hnewline⟩ := Bool.and_eq_true_iff.1 hnewline
          rw [eq_of_beq hnewline]
          exact .newline hlong
      exact .piece hpiece (ih hrest hrun)

/-- The body in which a form writes a text. -/
def Form.body (f : Form) (s : List Char) : List Char :=
  match f.quoting with
  | .basic => escapeText f.long 0 s
  | .literal => s

/-- Only a form that takes a text as it is writes it between apostrophes. -/
theorem takes_ofText {s : List Char} (h : (Form.ofText s).quoting = .literal) :
    (Form.ofText s).takes s = true := by
  unfold Form.ofText at h ⊢
  simp only at h ⊢
  cases hfound : [(⟨.basic, false⟩ : Form), ⟨.literal, false⟩, ⟨.basic, true⟩,
      ⟨.literal, true⟩].find? (·.takes s) with
  | none =>
    rw [hfound] at h
    cases h
  | some f =>
    have htakes := List.find?_some hfound
    exact htakes

/-- The body in which a text is written is a row of pieces. -/
theorem written_body (s : List Char) :
    Written (Form.ofText s) 0 ((Form.ofText s).body s) s := by
  have htakes := @takes_ofText s
  cases hform : Form.ofText s with
  | mk quoting long =>
    rw [hform] at htakes
    cases quoting with
    | basic => exact written_escapeText long 0 s
    | literal =>
      obtain ⟨hchars, hrun⟩ := Bool.and_eq_true_iff.1 (htakes rfl)
      refine written_self (fun c hc => ?_) (by simpa [Form.longest, Form.body] using hrun)
      obtain ⟨hplain, hescapes⟩ := Bool.and_eq_true_iff.1 (List.all_eq_true.1 hchars c hc)
      exact ⟨hplain, by simpa using hescapes⟩

/-! ## One step of each reader -/

theorem newline?_eq_none {c : Char} (h : c ≠ '\n' ∧ c ≠ '\r') (rest : List Char) :
    newline? (c :: rest) = none := by
  rw [newline?.eq_def]
  split
  · next heq => exact absurd (List.cons.inj heq).1 h.1
  · next heq => exact absurd (List.cons.inj heq).1 h.2
  · rfl

theorem dropSpace_cons {c : Char} (h : isSpace c = false) (rest : List Char) :
    dropSpace (c :: rest) = c :: rest :=
  List.dropWhile_cons_of_neg (by rw [h]; exact Bool.false_ne_true)

theorem readEscape_short {d c : Char} (h : shortEscape? d = some c) (rest : List Char) :
    (readEscape (d :: rest)).map Taken.pair = some (c, rest) := by
  rw [readEscape, h]
  rfl

theorem readEscape_code {s rest : List Char} {c : Char}
    (h : (readCode 4 s).map Left.pair = some (c, rest)) :
    (readEscape ('u' :: s)).map Taken.pair = some (c, rest) := by
  obtain ⟨code, hread, hpair⟩ := Option.map_eq_some_iff.1 h
  obtain ⟨rfl, rfl⟩ := Prod.mk.inj hpair
  simp only [readEscape, shortEscape?, codeWidth?, hread]
  rfl

theorem readShort_mark (q : Quoting) (tail : List Char) :
    (readShort q (q.mark :: tail)).map Taken.pair = some ([], tail) := by
  rw [readShort, if_pos rfl]
  rfl

theorem readShort_plain {q : Quoting} {c : Char} {rest s tail : List Char}
    (hplain : isPlain c = true) (hmark : c ≠ q.mark) (hescapes : q.escapes c = false)
    (h : (readShort q rest).map Taken.pair = some (s, tail)) :
    (readShort q (c :: rest)).map Taken.pair = some (c :: s, tail) := by
  obtain ⟨more, hread, rfl, rfl⟩ := Taken.map_pair_eq_some.1 h
  rw [readShort, if_neg hmark, if_neg (Bool.eq_false_iff.1 hescapes), if_pos hplain, hread]
  rfl

theorem readShort_escape {c : Char} {rest mid s tail : List Char}
    (hescape : (readEscape rest).map Taken.pair = some (c, mid))
    (h : (readShort .basic mid).map Taken.pair = some (s, tail)) :
    (readShort .basic ('\\' :: rest)).map Taken.pair = some (c :: s, tail) := by
  obtain ⟨escaped, hescaped, rfl, rfl⟩ := Taken.map_pair_eq_some.1 hescape
  obtain ⟨more, hread, rfl, rfl⟩ := Taken.map_pair_eq_some.1 h
  rw [readShort, if_neg (by decide), if_pos (by decide), hescaped]
  simp only [hread]
  rfl

theorem readLong_plain {q : Quoting} {c : Char} {rest s tail : List Char}
    (hplain : isPlain c = true) (hmark : c ≠ q.mark) (hescapes : q.escapes c = false)
    (h : (readLong q rest).map Taken.pair = some (s, tail)) :
    (readLong q (c :: rest)).map Taken.pair = some (c :: s, tail) := by
  obtain ⟨more, hread, rfl, rfl⟩ := Taken.map_pair_eq_some.1 h
  rw [readLong, if_neg hmark, if_neg (Bool.eq_false_iff.1 hescapes)]
  split
  · next hnewline =>
    rw [newline?_eq_none (isPlain_ne hplain)] at hnewline
    cases hnewline
  · rw [if_pos hplain, hread]
    rfl

theorem readLong_newline {q : Quoting} {rest s tail : List Char}
    (h : (readLong q rest).map Taken.pair = some (s, tail)) :
    (readLong q ('\n' :: rest)).map Taken.pair = some ('\n' :: s, tail) := by
  obtain ⟨more, hread, rfl, rfl⟩ := Taken.map_pair_eq_some.1 h
  have hescapes : q.escapes '\n' = false := by cases q <;> decide
  rw [readLong, if_neg (mark_ne q).1.symm, if_neg (Bool.eq_false_iff.1 hescapes)]
  split
  · next after hnewline =>
    obtain rfl : rest = after := Option.some.inj hnewline
    rw [hread]
    rfl
  · next hnewline => cases hnewline

theorem readLong_escape {c : Char} {rest mid s tail : List Char}
    (hline : afterEscapedLine rest = none)
    (hescape : (readEscape rest).map Taken.pair = some (c, mid))
    (h : (readLong .basic mid).map Taken.pair = some (s, tail)) :
    (readLong .basic ('\\' :: rest)).map Taken.pair = some (c :: s, tail) := by
  obtain ⟨escaped, hescaped, rfl, rfl⟩ := Taken.map_pair_eq_some.1 hescape
  obtain ⟨more, hread, rfl, rfl⟩ := Taken.map_pair_eq_some.1 h
  rw [readLong, if_neg (by decide), if_pos (by decide)]
  split
  · next after hafter =>
    rw [hline] at hafter
    cases hafter
  · rw [hescaped]
    simp only [hread]
    rfl

/-- A mark with no two marks behind it belongs to a string. -/
theorem readLong_mark {q : Quoting} {rest s tail : List Char} (hnone : readClosing q rest = none)
    (h : (readLong q rest).map Taken.pair = some (s, tail)) :
    (readLong q (q.mark :: rest)).map Taken.pair = some (q.mark :: s, tail) := by
  obtain ⟨more, hread, rfl, rfl⟩ := Taken.map_pair_eq_some.1 h
  rw [readLong, if_pos rfl, hnone]
  simp only [hread]
  rfl

theorem readLong_closing {q : Quoting} {rest s tail : List Char}
    (h : (readClosing q rest).map Taken.pair = some (s, tail)) :
    (readLong q (q.mark :: rest)).map Taken.pair = some (s, tail) := by
  obtain ⟨closing, hread, rfl, rfl⟩ := Taken.map_pair_eq_some.1 h
  rw [readLong, if_pos rfl, hread]
  rfl

/-! ## Pieces are read one by one -/

/-- An escape does not start with a blank or a line end. -/
theorem Escape.start {w : List Char} {c : Char} (h : Escape w c) :
    ∃ d rest, w = d :: rest ∧ isSpace d = false ∧ d ≠ '\n' ∧ d ≠ '\r' := by
  cases h with
  | @short d _ hd =>
    have hne : ∀ e, shortEscape? e = none → d ≠ e := by
      rintro e he rfl
      rw [he] at hd
      cases hd
    refine ⟨d, [], rfl, ?_, hne '\n' rfl, hne '\r' rfl⟩
    simp [isSpace, hne ' ' rfl, hne '\t' rfl]
  | code _ => exact ⟨'u', _, rfl, by decide⟩

/-- An escape is no escaped line end. -/
theorem Escape.afterEscapedLine_append {w : List Char} {c : Char} (h : Escape w c)
    (rest : List Char) : afterEscapedLine (w ++ rest) = none := by
  obtain ⟨d, more, rfl, hspace, hline⟩ := h.start
  rw [List.cons_append, afterEscapedLine, dropSpace_cons hspace, newline?_eq_none hline]
  rfl

theorem Escape.readEscape_append {w : List Char} {c : Char} (h : Escape w c)
    (rest : List Char) : (readEscape (w ++ rest)).map Taken.pair = some (c, rest) := by
  cases h with
  | short hd => exact readEscape_short hd rest
  | code hc => exact readEscape_code (readCode_hexDigits hc rest)

/-- A piece on one line is read as its character. -/
theorem Piece.readShort_append {f : Form} {p rest s tail : List Char} {c : Char}
    (h : Piece f p c) (hshort : f.long = false)
    (hrest : (readShort f.quoting rest).map Taken.pair = some (s, tail)) :
    (readShort f.quoting (p ++ rest)).map Taken.pair = some (c :: s, tail) := by
  cases h with
  | plain hplain hmark hescapes => exact readShort_plain hplain hmark hescapes hrest
  | newline hlong => exact absurd (hshort.symm.trans hlong) Bool.false_ne_true
  | escape hbasic hescape =>
    rw [hbasic] at hrest ⊢
    exact readShort_escape (hescape.readEscape_append rest) hrest

/-- A piece over several lines is read as its character. -/
theorem Piece.readLong_append {f : Form} {p rest s tail : List Char} {c : Char}
    (h : Piece f p c) (hrest : (readLong f.quoting rest).map Taken.pair = some (s, tail)) :
    (readLong f.quoting (p ++ rest)).map Taken.pair = some (c :: s, tail) := by
  cases h with
  | plain hplain hmark hescapes => exact readLong_plain hplain hmark hescapes hrest
  | newline _ => exact readLong_newline hrest
  | escape hbasic hescape =>
    rw [hbasic] at hrest ⊢
    exact readLong_escape (hescape.afterEscapedLine_append rest)
      (hescape.readEscape_append rest) hrest

/-! ## The marks that close a string over several lines -/

/-- Of the marks behind two that close a string, up to two belong to it. -/
theorem readClosing_marks {q : Quoting} {k : Nat} {tail : List Char} (hk : k ≤ 2)
    (htail : tail.head? ≠ some q.mark) :
    (readClosing q (List.replicate (k + 2) q.mark ++ tail)).map Taken.pair
      = some (List.replicate k q.mark, tail) := by
  have hstop : ∀ n, (tail.take n).takeWhile (· == q.mark) = [] := by
    intro n
    cases tail with
    | nil => simp
    | cons c rest =>
      have hc : c ≠ q.mark := fun h => htail (congrArg some h)
      cases n with
      | zero => rfl
      | succ n => simp [hc]
  have hextra : ((List.replicate k q.mark ++ tail).take 2).takeWhile (· == q.mark)
      = List.replicate k q.mark := by
    match k, hk with
    | 0, _ => exact hstop 2
    | 1, _ => simp [hstop]
    | 2, _ => simp
  simp only [List.replicate_succ, List.cons_append, readClosing, and_self, if_true, hextra,
    Option.map_some, Taken.pair_mk, List.length_replicate]
  rw [List.drop_left' List.length_replicate]

/-- Up to two marks before the three that close a string belong to it. -/
theorem readLong_marks {q : Quoting} {k : Nat} {tail : List Char} (hk : k ≤ 2)
    (htail : tail.head? ≠ some q.mark) :
    (readLong q (List.replicate (k + 3) q.mark ++ tail)).map Taken.pair
      = some (List.replicate k q.mark, tail) :=
  readLong_closing (readClosing_marks hk htail)

/-- Two marks that close a string stand side by side. -/
theorem readClosing_eq_none {q : Quoting} {k : Nat} {d : Char} (hk : k ≤ 1) (hd : d ≠ q.mark)
    (rest : List Char) : readClosing q (List.replicate k q.mark ++ d :: rest) = none := by
  match k, hk with
  | 0, _ =>
    cases rest with
    | nil => rfl
    | cons b rest => exact if_neg fun h => hd h.1
  | 1, _ => exact if_neg fun h => hd h.2

/-- A body is marks throughout, as many as may stand as they are, or it has something else
behind that many. -/
theorem Written.marks {f : Form} {run : Nat} {w s : List Char} (h : Written f run w s)
    (hrun : run ≤ f.longest) :
    ∃ k, run + k ≤ f.longest ∧
      ((w = List.replicate k f.quoting.mark ∧ s = List.replicate k f.quoting.mark) ∨
        ∃ d rest, w = List.replicate k f.quoting.mark ++ d :: rest ∧ d ≠ f.quoting.mark) := by
  induction h with
  | nil => exact ⟨0, hrun, .inl ⟨rfl, rfl⟩⟩
  | mark hlt _ ih =>
    obtain ⟨k, hk, hmarks⟩ := ih hlt
    refine ⟨k + 1, by omega, ?_⟩
    rcases hmarks with ⟨rfl, rfl⟩ | ⟨d, rest, rfl, hd⟩
    · exact .inl ⟨rfl, rfl⟩
    · exact .inr ⟨d, rest, rfl, hd⟩
  | piece hpiece _ _ =>
    obtain ⟨d, rest, rfl, hd, -⟩ := hpiece.start
    exact ⟨0, hrun, .inr ⟨d, rest ++ _, rfl, hd⟩⟩

/-! ## Rows of pieces are read to their end -/

/-- **The body of a string on one line is read up to the mark that closes it.** -/
theorem readShort_append {f : Form} {run : Nat} {w s tail : List Char} (h : Written f run w s)
    (hshort : f.long = false) :
    (readShort f.quoting (w ++ f.quoting.mark :: tail)).map Taken.pair = some (s, tail) := by
  induction h with
  | nil => exact readShort_mark _ _
  | mark hlt _ _ =>
    have hlongest : f.longest = 0 := if_neg (by simp [hshort])
    exact absurd hlt (by omega)
  | piece hpiece _ ih =>
    rw [List.append_assoc]
    exact hpiece.readShort_append hshort ih

/-- **The body of a string over several lines is read up to the three marks that close it**, if
no more marks stand behind them. -/
theorem readLong_append {f : Form} {run : Nat} {w s tail : List Char} (h : Written f run w s)
    (htail : tail.head? ≠ some f.quoting.mark) :
    (readLong f.quoting (w ++ (List.replicate 3 f.quoting.mark ++ tail))).map Taken.pair
      = some (s, tail) := by
  have hlongest : f.longest ≤ 2 := by
    unfold Form.longest
    split <;> decide
  induction h with
  | nil => exact readLong_marks (Nat.zero_le 2) htail
  | @mark run w s hlt hmore ih =>
    obtain ⟨k, hk, ⟨rfl, rfl⟩ | ⟨d, rest, rfl, hd⟩⟩ := hmore.marks hlt
    · -- Only marks are left: the last three close the string, and all others belong to it.
      have hmarks := readLong_marks (k := k + 1) (by omega) htail
      rw [← List.replicate_append_replicate, List.append_assoc] at hmarks
      exact hmarks
    · rw [List.cons_append]
      refine readLong_mark ?_ ih
      rw [List.append_assoc]
      exact readClosing_eq_none (by omega) hd _
  | piece hpiece _ ih =>
    rw [List.append_assoc]
    exact hpiece.readLong_append ih

/-! ## Whole strings -/

theorem readAfterMark_short {q : Quoting} {s : List Char}
    (h : ∀ rest, s ≠ q.mark :: q.mark :: rest) :
    (readAfterMark q s).map Taken.pair = (readShort q s).map Taken.pair := by
  rw [readAfterMark.eq_def]
  split
  · next a b rest =>
    have hmarks : ¬ (a = q.mark ∧ b = q.mark) := by
      rintro ⟨rfl, rfl⟩
      exact h rest rfl
    rw [if_neg hmarks]
  · rfl

theorem readAfterMark_long (q : Quoting) (rest : List Char) :
    (readAfterMark q (q.mark :: q.mark :: rest)).map Taken.pair
      = (readLong q (dropFirstNewline rest)).map Taken.pair := by
  rw [readAfterMark, if_pos ⟨rfl, rfl⟩]
  cases readLong q (dropFirstNewline rest) <;> rfl

/-- A line feed in front of the body is dropped, and otherwise the body does not start with
one. -/
theorem Written.dropFirstNewline_append {f : Form} {w s : List Char} (h : Written f 0 w s)
    (rest : List Char) :
    dropFirstNewline ((if s.contains '\n' then ['\n'] else []) ++ (w ++ f.quoting.mark :: rest))
      = w ++ f.quoting.mark :: rest := by
  split
  · rfl
  · next hcontains =>
    have hstart : ∃ d more, w ++ f.quoting.mark :: rest = d :: more ∧ d ≠ '\n' ∧ d ≠ '\r' := by
      cases h with
      | nil => exact ⟨_, _, rfl, mark_ne _⟩
      | mark _ _ => exact ⟨_, _, rfl, mark_ne _⟩
      | piece hpiece _ =>
        obtain ⟨d, more, rfl, -, hreturn, hnewline⟩ := hpiece.start
        refine ⟨d, _, rfl, ?_, hreturn⟩
        rintro rfl
        obtain rfl := hnewline rfl
        exact hcontains (by simp)
    obtain ⟨d, more, heq, hd⟩ := hstart
    rw [List.nil_append, heq, dropFirstNewline, newline?_eq_none hd]
    rfl

/-- A string on one line does not look like one over several lines: it does not go on with two
marks after the first one. -/
theorem Written.append_ne_marks {f : Form} {w s tail : List Char} (h : Written f 0 w s)
    (hshort : f.long = false) (htail : tail.head? ≠ some f.quoting.mark) (rest : List Char) :
    w ++ f.quoting.mark :: tail ≠ f.quoting.mark :: f.quoting.mark :: rest := by
  cases h with
  | nil =>
    intro heq
    exact htail (by rw [(List.cons.inj heq).2]; rfl)
  | mark hlt _ => exact absurd hlt (by simp [Form.longest, hshort])
  | piece hpiece _ =>
    obtain ⟨d, more, rfl, hd, -⟩ := hpiece.start
    exact fun heq => hd (List.cons.inj heq).1

theorem write_short (q : Quoting) (s : List Char) :
    Form.write ⟨q, false⟩ s = q.mark :: (Form.body ⟨q, false⟩ s ++ [q.mark]) := rfl

theorem write_long (q : Quoting) (s : List Char) :
    Form.write ⟨q, true⟩ s = q.mark :: q.mark :: q.mark :: ((if s.contains '\n' then ['\n'] else [])
      ++ (Form.body ⟨q, true⟩ s ++ List.replicate 3 q.mark)) := by
  have hwrite : Form.write ⟨q, true⟩ s = List.replicate 3 q.mark
      ++ (if s.contains '\n' then ['\n'] else []) ++ Form.body ⟨q, true⟩ s
      ++ List.replicate 3 q.mark := rfl
  rw [hwrite, List.append_assoc, List.append_assoc]
  rfl

/-- **A string is read back in every form in which its body is a row of pieces**, whatever
stands behind it but one more mark. -/
theorem readAfterMark_write {f : Form} {s : List Char} (h : Written f 0 (f.body s) s) :
    ∃ w, f.write s = f.quoting.mark :: w ∧ ∀ tail : List Char,
      tail.head? ≠ some f.quoting.mark →
      (readAfterMark f.quoting (w ++ tail)).map Taken.pair = some (s, tail) := by
  obtain ⟨q, _ | _⟩ := f
  · refine ⟨_, write_short q s, fun tail htail => ?_⟩
    rw [List.append_assoc, List.singleton_append,
      readAfterMark_short (h.append_ne_marks rfl htail)]
    exact readShort_append h rfl
  · refine ⟨_, write_long q s, fun tail htail => ?_⟩
    have hfirst : dropFirstNewline ((if s.contains '\n' then ['\n'] else [])
        ++ (Form.body ⟨q, true⟩ s ++ (List.replicate 3 q.mark ++ tail)))
        = Form.body ⟨q, true⟩ s ++ (List.replicate 3 q.mark ++ tail) :=
      h.dropFirstNewline_append (q.mark :: q.mark :: tail)
    rw [List.cons_append, List.cons_append, readAfterMark_long, List.append_assoc,
      List.append_assoc, hfirst]
    exact readLong_append h htail

/-- **A written string is read back**, whatever stands behind it but a mark. -/
theorem readAfterMark_writeString (s : String) :
    ∃ (q : Quoting) (w : List Char), writeString s = q.mark :: w ∧ ∀ tail : List Char,
      tail.head? ≠ some q.mark →
      (readAfterMark q (w ++ tail)).map Taken.pair = some (s.toList, tail) := by
  obtain ⟨w, hw, hread⟩ := readAfterMark_write (written_body s.toList)
  exact ⟨_, w, hw, hread⟩

end FieldTree.Toml
