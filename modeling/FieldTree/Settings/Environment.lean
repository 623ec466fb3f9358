/-
# Settings from the environment

Environment variables that start with `TYPETREE_`, in any case, state settings or parts of
them. A value is taken for a truth value, a number or a list before it is taken for a text,
and a setting is stated only by values that it can be made from. A variable for a setting
as a whole outweighs those for its parts.
-/
import FieldTree.Decimal.Literal
import FieldTree.Decimal.Shortest
import FieldTree.Settings.Basic
import FieldTree.Settings.Part
import FieldTree.Text.Lower

namespace FieldTree

/-- The variables of an environment, in order. -/
abbrev Environment := List (String × String)

namespace Environment

/-- The environment in a block of settings `NAME=VALUE`, each ended by a null character. -/
def ofBlock (block : String) : Environment :=
  (block.toList.splitOnP (· == '\x00')).filterMap fun line =>
    match line.dropWhile (· != '=') with
    | _ :: value => some (String.ofList (line.takeWhile (· != '=')), String.ofList value)
    | [] => none

/-- The value of a variable; of several the last one counts. -/
def value? (env : Environment) (name : String) : Option String := env.reverse.lookup name

/-- What the value of a variable is taken for. -/
inductive Reading where
  | boolean (value : Bool)
  | integer (value : Int)
  | float (value : Decimal.Binary64)
  | list (elements : List String)
  | text (value : String)
  deriving DecidableEq, Repr

/-- The whole number of 64 bits that a word writes. -/
def integer? (word : List Char) : Option Int :=
  (Decimal.integer? word).filter fun n => -0x8000000000000000 ≤ n && n < 0x8000000000000000

/-- The truth value that a word is, in any case. -/
def boolean? (word : String) : Option Bool :=
  if word = "true" then some true else if word = "false" then some false else none

/-- The parts of a text between its commas. -/
def commaSeparated (s : String) : List String :=
  (s.toList.splitOnP (· == ',')).map String.ofList

/-- What a value is taken for; only where a list is wanted it may be one. -/
def Reading.ofText (wantsList : Bool) (s : String) : Reading :=
  match boolean? (Text.lower s) with
  | some value => boolean value
  | none =>
    match integer? s.toList with
    | some value => integer value
    | none =>
      match Decimal.number? s.toList with
      | some value => float value
      | none => if wantsList then list (commaSeparated s) else text s

namespace Reading

/-- The list that a value is. -/
def asList? : Reading → Option (List String)
  | list elements => some elements
  | _ => none

/-- The greatest number that a setting can have. -/
def greatest : Nat := 0xffffffffffffffff

/-- The number that a word stands for. -/
def wordNumber? (word : String) : Option Nat :=
  if word ∈ ["true", "on", "yes"] then some 1
  else if word ∈ ["false", "off", "no"] then some 0
  else none

/-- The number from zero on that a value can be made into. -/
def asNumber? : Reading → Option Nat
  | boolean value => some value.toNat
  | integer value => if 0 ≤ value then some value.toNat else none
  | float value => some (value.clampedRound greatest)
  | text value => wordNumber? (Text.lower value)
  | list _ => none

/-- The text that a value can be made into. -/
def asText? : Reading → Option String
  | boolean value => some (toString value)
  | integer value => some (toString value)
  | float value => some value.text
  | text value => some value
  | list _ => none

end Reading

/-- What the start of a variable's name must be. -/
def namePrefix : String := "typetree_"

/-- A text with a point in place of each pair of low lines. -/
def pointed : List Char → List Char
  | '_' :: '_' :: rest => '.' :: pointed rest
  | c :: rest => c :: pointed rest
  | [] => []

/-- The place that a variable states, by its name in any case. -/
def place? (name : String) : Option Place :=
  let lowered := (Text.lower name).toList
  if namePrefix.toList.isPrefixOf lowered then
    Place.ofText? (pointed (lowered.drop namePrefix.length))
  else none

/-- What the variables state about a setting: the steps to its parts, and the values. -/
def stated (env : Environment) (key : String) : List (List Step × String) :=
  env.filterMap fun entry =>
    match place? entry.1 with
    | some place => if place.key = key then some (place.steps, entry.2) else none
    | none => none

/-- The value of the variable for a setting as a whole; of several the last one counts. -/
def setting? (env : Environment) (key : String) : Option String :=
  (env.stated key).reverse.lookup []

/-- What the variables for the parts of a setting make up. -/
def gathered (env : Environment) (key : String) : Part :=
  (env.stated key).foldl (fun part entry => part.put entry.1 (.word entry.2)) .nothing

/-- The texts that the elements of a list can be made into. -/
def asTexts? : Part → Option (List String)
  | .list elements => elements.mapM fun
    | .word s => (Reading.ofText false s).asText?
    | _ => none
  | _ => none

/-- The list that is stated for a setting, as a whole or element by element. -/
def list? (env : Environment) (key : String) : Option (List String) :=
  match env.setting? key with
  | some s => (Reading.ofText true s).asList?
  | none => asTexts? (env.gathered key)

/-- The layer that an environment states. -/
def overlay (env : Environment) : Overlay where
  handlers := env.list? "handlers"
  maxDepth := (env.setting? "max_depth").bind fun s => (Reading.ofText false s).asNumber?
  idField := (env.setting? "id_field").bind fun s => (Reading.ofText false s).asText?

end Environment

end FieldTree
