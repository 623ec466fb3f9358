/-
# White space

The characters that count as white space in free text, and trimming by them.
The notation of types and of documents has narrower sets of its own.
-/
import FieldTree.Text.Ranges

namespace FieldTree.Text

/-- The codes of the white space characters. -/
def whiteSpace : Ranges :=
  [(0x9, 0xd), (0x20, 0x20), (0x85, 0x85), (0xa0, 0xa0), (0x1680, 0x1680), (0x2000, 0x200a),
   (0x2028, 0x2029), (0x202f, 0x202f), (0x205f, 0x205f), (0x3000, 0x3000)]

/-- Whether a character is white space. -/
def isBlank (c : Char) : Bool := whiteSpace.contains c.toNat

/-- The characters between leading and trailing white space. -/
def trimChars (s : List Char) : List Char :=
  ((s.dropWhile isBlank).reverse.dropWhile isBlank).reverse

/-- A text without its leading and trailing white space. -/
def trim (s : String) : String := String.ofList (trimChars s.toList)

/-- Whether a text is empty or white space throughout. -/
def allBlank (s : String) : Bool := s.toList.all isBlank

/-- A text with the letters `A` to `Z` in lower case and every other character kept. -/
def lowerAscii (s : String) : String := String.ofList (s.toList.map Char.toLower)

/-! ## Small facts -/

example : isBlank ' ' = true ∧ isBlank '\u00a0' = true ∧ isBlank 'x' = false := by decide

end FieldTree.Text
