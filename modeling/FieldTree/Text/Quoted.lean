/-
# Quoted text

Text between double quotes, as messages show it: the quote, the backslash and the
common controls by a letter, other characters without a shape of their own by their
code in hexadecimal, and everything else as it is.
-/
import FieldTree.Text.Quoted.Hidden

namespace FieldTree.Text

/-- The written form of one character inside quotes. -/
def quoteChar (c : Char) : List Char :=
  match c with
  | '\x00' => ['\\', '0']
  | '\t' => ['\\', 't']
  | '\n' => ['\\', 'n']
  | '\r' => ['\\', 'r']
  | '"' => ['\\', '"']
  | '\\' => ['\\', '\\']
  | c =>
    if hidden.contains c.toNat then
      ['\\', 'u', '\x7b'] ++ Nat.toDigits 16 c.toNat ++ ['\x7d']
    else [c]

/-- Characters between double quotes. -/
def quoteChars (s : List Char) : List Char :=
  '"' :: s.flatMap quoteChar ++ ['"']

/-- A text between double quotes. -/
def quoted (s : String) : String := String.ofList (quoteChars s.toList)

/-! ## Small facts -/

example : quoted "a\"b\\c\n" = "\"a\\\"b\\\\c\\n\"" := by decide +kernel

/-- A combining accent is shown by its code. -/
example : quoteChar '\u0301' = ['\\', 'u', '\x7b', '3', '0', '1', '\x7d'] := by decide +kernel

end FieldTree.Text
