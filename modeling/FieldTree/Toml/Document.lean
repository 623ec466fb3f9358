/-
# TOML documents

    document  ::= line*
    line      ::= [assign | '[' keys ']' | '[' '[' keys ']' ']'] [comment] newline
    assign    ::= keys '=' value
    value     ::= word | string | '[' (value (',' value)* [','])? ']'
                | '{' (assign (',' assign)*)? '}'

Reading gives a list of statements; the tables are then put together from them, section
by section. Arrays and inline tables are nested less than eighty deep.
-/
import FieldTree.Toml.Draft
import FieldTree.Toml.Scalar

namespace FieldTree.Toml

/-- A reader of values. -/
abbrev ValueReader := (s : List Char) → Option (Taken s Value)

/-! ## Values -/

/-- Reads the elements of an array after its opening bracket or a comma. -/
def readElements (readOne : ValueReader) (s : List Char) : Option (Taken s (List Value)) :=
  have hs := length_dropTrivia_le s
  match _h : dropTrivia s with
  | [] => none
  | c :: rest =>
    if c = ']' then some ⟨[], rest, length_lt_of_eq_cons _h hs⟩
    else
      match readOne (c :: rest) with
      | none => none
      | some first =>
        have hfirst : (dropTrivia first.rest).length ≤ s.length :=
          Nat.le_trans (length_dropTrivia_le _) (Nat.le_trans (Nat.le_of_lt first.shorter) (_h ▸ hs))
        match _hr : dropTrivia first.rest with
        | ',' :: rest =>
          match readElements readOne rest with
          | none => none
          | some more => some (.before [first.value] more
              (Nat.le_of_lt (length_lt_of_eq_cons _hr hfirst)))
        | ']' :: rest => some ⟨[first.value], rest, length_lt_of_eq_cons _hr hfirst⟩
        | _ => none
termination_by s.length
decreasing_by exact length_lt_of_eq_cons _hr hfirst

/-- Reads keys, an equals sign, a value and the blanks around it. -/
def readAssignment (readOne : ValueReader) (s : List Char) : Option (Taken s (KeyPath × Value)) :=
  match readKeyPath s with
  | none => none
  | some key =>
    match _h : key.rest with
    | '=' :: rest =>
      match readOne (dropSpace rest) with
      | none => none
      | some v => some ⟨(key.value, v.value), dropSpace v.rest,
          Nat.lt_of_le_of_lt (length_dropSpace_le _) (Nat.lt_trans v.shorter
            (Nat.lt_of_le_of_lt (length_dropSpace_le _)
              (length_lt_of_eq_cons _h (Nat.le_of_lt key.shorter))))⟩
    | _ => none

/-- Reads the entries of an inline table after its opening brace or a comma. -/
def readPairs (readOne : ValueReader) (s : List Char) :
    Option (Taken s (List (KeyPath × Value))) :=
  match readAssignment readOne s with
  | none => none
  | some first =>
    have hfirst := Nat.le_of_lt first.shorter
    match _h : first.rest with
    | ',' :: rest =>
      match readPairs readOne rest with
      | none => none
      | some more => some (.before [first.value] more
          (Nat.le_of_lt (length_lt_of_eq_cons _h hfirst)))
    | '\x7d' :: rest => some ⟨[first.value], rest, length_lt_of_eq_cons _h hfirst⟩
    | _ => none
termination_by s.length
decreasing_by exact length_lt_of_eq_cons _h hfirst

/-- Reads an inline table after its opening brace. -/
def readInlineTable (readOne : ValueReader) (s : List Char) : Option (Taken s Value) :=
  have hs := length_dropSpace_le s
  match _h : dropSpace s with
  | '\x7d' :: rest => some ⟨.table [], rest, length_lt_of_eq_cons _h hs⟩
  | _ =>
    match readPairs readOne s with
    | none => none
    | some pairs =>
      match Body.assignAll [] pairs.value with
      | none => none
      | some body => some ⟨.table (finishEntries body), pairs.rest, pairs.shorter⟩

/-- Reads a value in which arrays and inline tables are nested at most `room` deep. -/
def readValue (room : Nat) (s : List Char) : Option (Taken s Value) :=
  match s with
  | [] => none
  | c :: rest =>
    let string (q : Quoting) : Option (Taken (c :: rest) Value) :=
      (readAfterMark q rest).map fun text =>
        (text.map fun cs => Value.string (String.ofList cs)).behind
    if c = '"' then string .basic
    else if c = '\'' then string .literal
    else if c = '[' then
      match room with
      | 0 => none
      | room + 1 => (readElements (readValue room) rest).map fun elements =>
          (elements.map Value.array).behind
    else if c = '\x7b' then
      match room with
      | 0 => none
      | room + 1 => (readInlineTable (readValue room) rest).map (·.behind)
    else readScalar (c :: rest)

/-- How deep arrays and inline tables may be nested. -/
def nestingLimit : Nat := 79

/-! ## Statements -/

/-- What a line in brackets announces. -/
inductive Header where
  /-- A table. -/
  | table (key : KeyPath)
  /-- One more table of an array of tables. -/
  | element (key : KeyPath)

/-- One line of a document that says something. -/
inductive Statement where
  | header (h : Header)
  | assign (key : KeyPath) (v : Value)

/-- Reads one statement. -/
def readStatement (s : List Char) : Option (Taken s Statement) :=
  match s with
  | '[' :: '[' :: rest =>
    match readKeyPath rest with
    | none => none
    | some key =>
      match _h : key.rest with
      | ']' :: ']' :: after => some ⟨.header (.element key.value), after,
          Nat.lt_succ_of_lt (Nat.lt_succ_of_lt (Nat.lt_of_succ_lt
            (length_lt_of_eq_cons _h (Nat.le_of_lt key.shorter))))⟩
      | _ => none
  | '[' :: rest =>
    match readKeyPath rest with
    | none => none
    | some key =>
      match _h : key.rest with
      | ']' :: after => some ⟨.header (.table key.value), after,
          Nat.lt_succ_of_lt (length_lt_of_eq_cons _h (Nat.le_of_lt key.shorter))⟩
      | _ => none
  | s => (readAssignment (readValue nestingLimit) s).map (·.map fun pair => .assign pair.1 pair.2)

/-- Reads statements line by line; a line without one must be blank. -/
def readStatements (s : List Char) : Option (List Statement) :=
  match s with
  | [] => some []
  | c :: cs =>
    match readStatement (dropSpace (c :: cs)) with
    | some statement =>
      match _h : afterLine statement.rest with
      | none => none
      | some rest => (readStatements rest).map (statement.value :: ·)
    | none =>
      match _h : afterLine (c :: cs) with
      | none => none
      | some rest => readStatements rest
termination_by s.length
decreasing_by
  · exact Nat.lt_of_le_of_lt (length_afterLine_le _h)
      (Nat.lt_of_lt_of_le statement.shorter (length_dropSpace_le _))
  · exact length_afterLine_lt (List.cons_ne_nil c cs) _h

/-! ## Documents -/

/-- Opens the table that a header announces and fills it. -/
def Header.openIn (body : Body) (fill : Body → Option Body) : Header → Option Body
  | table key => body.openTable key fill
  | element key => body.openElement key fill

/-- A header and the assignments up to the next one. -/
structure Section where
  header : Header
  assignments : List (KeyPath × Value)

/-- The assignments before the first header, and the sections. -/
def sections : List Statement → List (KeyPath × Value) × List Section
  | [] => ([], [])
  | .assign key v :: rest => ((key, v) :: (sections rest).1, (sections rest).2)
  | .header h :: rest => ([], ⟨h, (sections rest).1⟩ :: (sections rest).2)

/-- The entries that statements make up together. -/
def assemble (statements : List Statement) : Option Entries := do
  let (top, rest) := sections statements
  let body ← Body.assignAll [] top
  let body ← rest.foldlM (fun body s => s.header.openIn body (·.assignAll s.assignments)) body
  return finishEntries body

/-- Reads a document. A byte order mark at its start is passed over. -/
def read? (text : String) : Option Entries :=
  let s := match text.toList with
    | '\ufeff' :: rest => rest
    | s => s
  (readStatements s).bind assemble

end FieldTree.Toml
