/-
# Tokens of the type notation

A written type is a row of punctuation marks and names, with blanks between them as one
likes. `scan` splits a text into lexemes, longest name first, and stops at the first
character that starts no token; each lexeme remembers the text from its start on, so that
a message can show what was not read.
-/
import FieldTree.Taken

namespace FieldTree.TypeExpr

/-- A punctuation mark of the type notation, or a name. -/
inductive Token where
  | bar
  | comma
  | openParen
  | closeParen
  | openBracket
  | closeBracket
  | openAngle
  | closeAngle
  | name (text : String)
  deriving DecidableEq, Repr

/-! ## Characters -/

/-- The blanks that may stand around a token. -/
def isSpace (c : Char) : Bool := c == ' ' || c == '\t' || c == '\n' || c == '\r'

/-- The characters that a name may start with. -/
def startsName (c : Char) : Bool := c.isAlpha || c == '_' || c == '$'

/-- The characters that a name may go on with. -/
def continuesName (c : Char) : Bool := startsName c || c.isDigit || c == '.'

/-- The mark that a character is. -/
def Token.mark? : Char → Option Token
  | '|' => some bar
  | ',' => some comma
  | '(' => some openParen
  | ')' => some closeParen
  | '[' => some openBracket
  | ']' => some closeBracket
  | '<' => some openAngle
  | '>' => some closeAngle
  | _ => none

/-- A text is a name: it starts as one and goes on as one. -/
def IsName (text : String) : Prop :=
  ∃ c rest, text.toList = c :: rest ∧ startsName c = true ∧ rest.all continuesName = true

/-! ## Scanning -/

/-- A token, and the text from its first character on. -/
structure Lexeme where
  token : Token
  source : List Char
  deriving DecidableEq, Repr

/-- The lexemes of a text, and the text from the first character on that starts no token. -/
structure Scan where
  lexemes : List Lexeme
  stuck : List Char
  deriving DecidableEq, Repr

namespace Scan

/-- One more lexeme in front. -/
def cons (lexeme : Lexeme) (s : Scan) : Scan := { s with lexemes := lexeme :: s.lexemes }

/-- The tokens that were read. -/
def tokens (s : Scan) : List Token := s.lexemes.map Lexeme.token

/-- The text from the start of the last `count` tokens on. -/
def sourceOfLast (s : Scan) (count : Nat) : List Char :=
  match s.lexemes.drop (s.lexemes.length - count) with
  | lexeme :: _ => lexeme.source
  | [] => s.stuck

end Scan

theorem length_dropWhile_le {α : Type} (p : α → Bool) (s : List α) :
    (s.dropWhile p).length ≤ s.length :=
  (List.dropWhile_sublist p).length_le

/-- Splits a text into lexemes as far as it goes. -/
def scan (s : List Char) : Scan :=
  match _h : s.dropWhile isSpace with
  | [] => ⟨[], []⟩
  | c :: rest =>
    match Token.mark? c with
    | some mark => (scan rest).cons ⟨mark, c :: rest⟩
    | none =>
      if startsName c then
        let word := c :: rest.takeWhile continuesName
        (scan (rest.dropWhile continuesName)).cons ⟨.name (String.ofList word), c :: rest⟩
      else ⟨[], c :: rest⟩
termination_by s.length
decreasing_by
  · exact length_lt_of_eq_cons _h (length_dropWhile_le isSpace s)
  · exact Nat.lt_of_le_of_lt (length_dropWhile_le continuesName rest)
      (length_lt_of_eq_cons _h (length_dropWhile_le isSpace s))

/-- The tokens of a text, if it consists of tokens and blanks. -/
def lex (s : String) : Option (List Token) :=
  let scanned := scan s.toList
  if scanned.stuck = [] then some scanned.tokens else none

/-! ## Small facts -/

example : lex " Record<string, a.b[]>" = some
    [.name "Record", .openAngle, .name "string", .comma, .name "a.b", .openBracket,
     .closeBracket, .closeAngle] := by decide +kernel

example : lex "A # B" = none := by decide +kernel

end FieldTree.TypeExpr
