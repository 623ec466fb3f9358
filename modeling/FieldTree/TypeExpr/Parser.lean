/-
# Reading type expressions

    union   ::= ['|'] postfix ('|' postfix)*
    postfix ::= primary ('[' ']')*
    primary ::= '(' union ')' | name ['<' union (',' union)* '>']

Reading goes from left to right and takes as much as it can. A part that does not come
to its end is left unread, and the part before it stands: type arguments that are not
closed leave the bare name. A text is a type when nothing is left unread.
-/
import FieldTree.Taken
import FieldTree.Text.Quoted
import FieldTree.TypeExpr.Basic
import FieldTree.TypeExpr.Token

namespace FieldTree.TypeExpr

/-! ## Values of the phrases -/

/-- The value of a union phrase: one variant stands for itself. -/
def ofVariants : List TypeExpr → TypeExpr
  | [only] => only
  | variants => .union variants

/-- The value of a name with type arguments. Arrays and maps have notations of their own as
names; of any other name with arguments only the name counts. -/
def ofName (name : String) (arguments : List TypeExpr) : TypeExpr :=
  match arguments with
  | [] => if name ∈ keywordNames then .keyword name else .reference name
  | [element] =>
    if name = "Array" ∨ name = "ReadonlyArray" then .array element else .reference name
  | [key, value] => if name = "Record" then .map key value else .reference name
  | _ => .reference name

/-! ## Phrases -/

/-- The tokens after an optional leading bar. -/
def dropBar : List Token → List Token
  | .bar :: rest => rest
  | tokens => tokens

theorem length_dropBar_le (tokens : List Token) : (dropBar tokens).length ≤ tokens.length := by
  unfold dropBar; split <;> simp

/-- Wraps an expression in an array for each pair of square brackets that follows. -/
def readBrackets (element : TypeExpr) : (tokens : List Token) → Left tokens TypeExpr
  | .openBracket :: .closeBracket :: rest =>
    let read := readBrackets (.array element) rest
    ⟨read.value, read.rest, Nat.le_trans read.notLonger (Nat.le_succ_of_le (Nat.le_succ _))⟩
  | tokens => ⟨element, tokens, Nat.le_refl _⟩

mutual

/-- Reads a union phrase. -/
def readUnion (tokens : List Token) : Option (Taken tokens TypeExpr) :=
  match readPostfix (dropBar tokens) with
  | none => none
  | some first =>
    let more := readVariants first.rest
    some ⟨ofVariants (first.value :: more.value), more.rest,
      Nat.lt_of_le_of_lt more.notLonger
        (Nat.lt_of_lt_of_le first.shorter (length_dropBar_le tokens))⟩
termination_by 3 * tokens.length + 2
decreasing_by
  · have := length_dropBar_le tokens; omega
  · have := length_dropBar_le tokens; have := first.shorter; omega

/-- Reads the further variants of a union, each after a bar. -/
def readVariants (tokens : List Token) : Left tokens (List TypeExpr) :=
  match tokens with
  | .bar :: rest =>
    match readPostfix rest with
    | none => ⟨[], .bar :: rest, Nat.le_refl _⟩
    | some variant =>
      let more := readVariants variant.rest
      ⟨variant.value :: more.value, more.rest,
        Nat.le_trans more.notLonger (Nat.le_of_lt (Nat.lt_succ_of_lt variant.shorter))⟩
  | tokens => ⟨[], tokens, Nat.le_refl _⟩
termination_by 3 * tokens.length
decreasing_by
  · simp only [List.length_cons]; omega
  · have := variant.shorter; simp only [List.length_cons]; omega

/-- Reads a primary phrase and the square brackets after it. -/
def readPostfix (tokens : List Token) : Option (Taken tokens TypeExpr) :=
  match readPrimary tokens with
  | none => none
  | some base =>
    let whole := readBrackets base.value base.rest
    some ⟨whole.value, whole.rest, Nat.lt_of_le_of_lt whole.notLonger base.shorter⟩
termination_by 3 * tokens.length + 1

/-- Reads a union in round brackets, or a name and its type arguments. -/
def readPrimary (tokens : List Token) : Option (Taken tokens TypeExpr) :=
  match tokens with
  | .openParen :: rest =>
    match readUnion rest with
    | none => none
    | some inner =>
      match h : inner.rest with
      | .closeParen :: after =>
        some ⟨inner.value, after,
          Nat.lt_succ_of_lt (length_lt_of_eq_cons h (Nat.le_of_lt inner.shorter))⟩
      | _ => none
  | .name name :: rest =>
    match readArguments rest with
    | none => some ⟨ofName name [], rest, Nat.lt_succ_self _⟩
    | some arguments =>
      some ⟨ofName name arguments.value, arguments.rest, Nat.lt_succ_of_lt arguments.shorter⟩
  | _ => none
termination_by 3 * tokens.length
decreasing_by all_goals simp only [List.length_cons]; omega

/-- Reads type arguments in angle brackets. -/
def readArguments (tokens : List Token) : Option (Taken tokens (List TypeExpr)) :=
  match tokens with
  | .openAngle :: rest =>
    match readUnion rest with
    | none => none
    | some first =>
      let more := readMoreArguments first.rest
      match h : more.rest with
      | .closeAngle :: after =>
        some ⟨first.value :: more.value, after,
          Nat.lt_succ_of_lt (length_lt_of_eq_cons h
            (Nat.le_trans more.notLonger (Nat.le_of_lt first.shorter)))⟩
      | _ => none
  | _ => none
termination_by 3 * tokens.length
decreasing_by
  · simp only [List.length_cons]; omega
  · have := first.shorter; simp only [List.length_cons]; omega

/-- Reads the further type arguments, each after a comma. -/
def readMoreArguments (tokens : List Token) : Left tokens (List TypeExpr) :=
  match tokens with
  | .comma :: rest =>
    match readUnion rest with
    | none => ⟨[], .comma :: rest, Nat.le_refl _⟩
    | some argument =>
      let more := readMoreArguments argument.rest
      ⟨argument.value :: more.value, more.rest,
        Nat.le_trans more.notLonger (Nat.le_of_lt (Nat.lt_succ_of_lt argument.shorter))⟩
  | tokens => ⟨[], tokens, Nat.le_refl _⟩
termination_by 3 * tokens.length
decreasing_by
  · simp only [List.length_cons]; omega
  · have := argument.shorter; simp only [List.length_cons]; omega

end

/-! ## Whole texts -/

/-- Why a text is not a type: no type starts it, or something after one is left over. In
both cases the text that could not be read. -/
inductive ParseError where
  | noType (unread : List Char)
  | leftOver (unread : List Char)
  deriving DecidableEq, Repr

/-- The wording of a parse error. -/
def ParseError.message : ParseError → String
  | .noType unread => wording unread "TakeWhile1"
  | .leftOver unread => wording unread "Eof"
where
  wording (unread : List Char) (code : String) : String :=
    "Parsing Error: Error \x7b input: " ++ Text.quoted (String.ofList unread) ++ ", code: "
      ++ code ++ " \x7d"

/-- Reads a whole text as a type. -/
def parse (s : String) : Except ParseError TypeExpr :=
  let scanned := scan s.toList
  match readUnion scanned.tokens with
  | none => .error (.noType (scanned.sourceOfLast (dropBar scanned.tokens).length))
  | some read =>
    let unread := scanned.sourceOfLast read.rest.length
    if unread = [] then .ok read.value else .error (.leftOver unread)

/-- Whether the written form of a type reads as that type. -/
def reparses (e : TypeExpr) : Bool :=
  match parse e.text with
  | .ok f => f == e
  | .error _ => false

end FieldTree.TypeExpr
