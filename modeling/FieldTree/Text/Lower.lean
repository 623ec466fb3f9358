/-
# Lower case

The lower case of a whole text. Most characters are mapped one by one; `İ` becomes two
characters; and a capital sigma takes its final form at the end of a word, that is when a
cased character stands before it and none after it, looking through the characters that
case rules ignore.
-/
import FieldTree.Text.Lower.Cased
import FieldTree.Text.Lower.Runs

namespace FieldTree.Text

/-- The lower case of a code by itself, when a run of the table holds it. -/
def CaseRun.lower? (run : CaseRun) (code : Nat) : Option Nat :=
  if run.first ≤ code && code ≤ run.last && (code - run.first) % run.step == 0 then
    some (run.target + (code - run.first))
  else none

/-- The lower case of one character, wherever it stands. -/
def lowerChar (c : Char) : List Char :=
  if c = 'İ' then ['i', '\u0307']
  else match caseRuns.findSome? (·.lower? c.toNat) with
    | some code => [Char.ofNat code]
    | none => [c]

/-- Whether the first character that case rules do not look through is cased. -/
def startsCased (s : List Char) : Bool :=
  match s.dropWhile fun c => caseIgnorable.contains c.toNat with
  | c :: _ => cased.contains c.toNat
  | [] => false

/-- The lower case of a text whose characters before it are `before`, nearest first. -/
def lowerAfter (before : List Char) : List Char → List Char
  | [] => []
  | c :: rest =>
    let lowered :=
      if c = 'Σ' then
        if startsCased before && !startsCased rest then ['ς'] else ['σ']
      else lowerChar c
    lowered ++ lowerAfter (c :: before) rest

/-- The lower case of a list of characters. -/
def lowerChars (s : List Char) : List Char := lowerAfter [] s

/-- The lower case of a text. -/
def lower (s : String) : String := String.ofList (lowerChars s.toList)

end FieldTree.Text
