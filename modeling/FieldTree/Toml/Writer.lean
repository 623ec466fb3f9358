/-
# Writing TOML

A string is written in the first of six forms that takes it: with quotation marks or with
apostrophes on one line, the same two over several lines, and with escapes over several
lines or on one. Long arrays have one element on a line.
-/
import FieldTree.Toml.Quoting

namespace FieldTree.Toml

/-! ## Forms of strings -/

/-- How a string is written. -/
structure Form where
  quoting : Quoting
  /-- Whether there are three marks on either side. -/
  long : Bool
  deriving DecidableEq, Repr

/-- Whether a run of some marks in a text is longer than allowed, after `run` of them. -/
def hasRun (mark : Char) (longest run : Nat) : List Char → Bool
  | [] => false
  | c :: rest =>
    if c = mark then longest < run + 1 || hasRun mark longest (run + 1) rest
    else hasRun mark longest 0 rest

/-- Whether the characters of a text may stand in a form as they are. -/
def Form.takes (f : Form) (s : List Char) : Bool :=
  s.all (fun c => (isPlain c || (f.long && c == '\n')) && !f.quoting.escapes c)
    && !hasRun f.quoting.mark (if f.long then 2 else 0) 0 s

/-- The form in which a string is written. -/
def Form.ofText (s : List Char) : Form :=
  let tried : List Form := [⟨.basic, false⟩, ⟨.literal, false⟩, ⟨.basic, true⟩, ⟨.literal, true⟩]
  (tried.find? (·.takes s)).getD ⟨.basic, s.contains '\n'⟩

/-! ## Escapes -/

/-- A digit of base sixteen, in upper case. -/
def hexDigit (n : Nat) : Char := (Nat.digitChar n).toUpper

/-- The written form of a character other than a quotation mark between quotation marks. -/
def escapeChar (long : Bool) (c : Char) : List Char :=
  match c with
  | '\x08' => ['\\', 'b']
  | '\t' => ['\\', 't']
  | '\n' => if long then ['\n'] else ['\\', 'n']
  | '\x0c' => ['\\', 'f']
  | '\r' => ['\\', 'r']
  | '\\' => ['\\', '\\']
  | c =>
    if isPlain c then [c]
    else ['\\', 'u', '0', '0', hexDigit (c.toNat / 16), hexDigit (c.toNat % 16)]

/-- The written form of a text between quotation marks, after `run` of them that stand as they
are. On one line none does, over several lines up to two in a row do. -/
def escapeText (long : Bool) (run : Nat) : List Char → List Char
  | [] => []
  | c :: rest =>
    if c = '"' then
      if (if long then 2 else 0) < run + 1 then '\\' :: '"' :: escapeText long 0 rest
      else '"' :: escapeText long (run + 1) rest
    else escapeChar long c ++ escapeText long 0 rest

/-! ## Strings and arrays -/

/-- A string in a form. A text of several lines starts on a line of its own. -/
def Form.write (f : Form) (s : List Char) : List Char :=
  let marks := List.replicate (if f.long then 3 else 1) f.quoting.mark
  let first := if f.long && s.contains '\n' then ['\n'] else []
  let body := match f.quoting with
    | .basic => escapeText f.long 0 s
    | .literal => s
  marks ++ first ++ body ++ marks

/-- A string in the form that it is written in. -/
def writeString (s : String) : List Char := (Form.ofText s.toList).write s.toList

/-- An array of strings: in one line if there is at most one. -/
def writeStrings (texts : List String) : List Char :=
  match texts with
  | [] => ['[', ']']
  | [only] => '[' :: writeString only ++ [']']
  | texts =>
    ['[', '\n'] ++ texts.flatMap (fun s => [' ', ' ', ' ', ' '] ++ writeString s ++ [',', '\n'])
      ++ [']']

/-- A line that gives a key a value. -/
def writeLine (key : String) (written : List Char) : List Char :=
  key.toList ++ [' ', '=', ' '] ++ written ++ ['\n']

/-! ## Small facts -/

example : writeString "a" = "\"a\"".toList ∧ writeString "\"" = "'\"'".toList := by
  decide +kernel

example : writeString "it's \"b\"" = "\"\"\"it's \"b\"\"\"\"".toList := by decide +kernel

end FieldTree.Toml
