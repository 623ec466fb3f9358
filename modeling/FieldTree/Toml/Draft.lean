/-
# Tables in the making

While a document is read its tables grow. Each remembers how it came about: by a header of
its own, on the way to another header, or by a dotted key. That decides who may still add
to it: a table has one header at most, dotted keys add only to tables made by dotted keys,
and values stay as they are.
-/
import FieldTree.Toml.Key
import FieldTree.Toml.Value

namespace FieldTree.Toml

/-- How a table came about. -/
inductive Origin where
  /-- By its own header. -/
  | header
  /-- On the way to the header of a table inside it. -/
  | implied
  /-- By a dotted key. -/
  | dotted
  deriving DecidableEq, Repr

/-- What stands under a key so far. -/
inductive Draft where
  /-- A value, which nothing is added to. -/
  | value (v : Value)
  | table (origin : Origin) (entries : List (String × Draft))
  /-- An array of tables, of which the last may grow. -/
  | tables (elements : List (List (String × Draft)))

/-- The entries of a table so far. -/
abbrev Body := List (String × Draft)

namespace Body

/-- Puts an entry in the place of the one with its key, or at the end. -/
def put (key : String) (d : Draft) : Body → Body
  | [] => [(key, d)]
  | entry :: rest => if entry.1 = key then (key, d) :: rest else entry :: put key d rest

/-- The entries without those of a key. -/
def erase (body : Body) (key : String) : Body := body.filter (·.1 != key)

/-- Changes the table that a path of keys leads to. Tables that are missing on the way are
made; an array of tables leads to its last element. -/
def within (made : Origin) (change : Origin → Body → Option Body) :
    List String → Origin → Body → Option Body
  | [], origin, body => change origin body
  | key :: path, _, body =>
    match body.lookup key with
    | none => (within made change path made []).map fun inner => body.put key (.table made inner)
    | some (.value _) => none
    | some (.table origin inner) =>
      if made = .dotted ∧ origin = .header then none
      else (within made change path origin inner).map fun inner =>
        body.put key (.table origin inner)
    | some (.tables elements) =>
      match elements.getLast? with
      | none => none
      | some inner => (within made change path .header inner).map fun inner =>
        body.put key (.tables (elements.dropLast ++ [inner]))

/-- Adds a value. A key of several parts must end in a table made by dotted keys. -/
def assign (body : Body) (key : KeyPath) (v : Value) : Option Body :=
  within .dotted
    (fun origin inner =>
      if (origin == .dotted) == key.parents.isEmpty ∨ (inner.lookup key.last).isSome then none
      else some (inner ++ [(key.last, .value v)]))
    key.parents .header body

/-- Adds several values one after another. -/
def assignAll (body : Body) (assignments : List (KeyPath × Value)) : Option Body :=
  assignments.foldlM (fun body a => body.assign a.1 a.2) body

/-- Opens the table of a header and fills it. A table that was only implied so far is taken
over, and counts as the last one. -/
def openTable (body : Body) (key : KeyPath) (fill : Body → Option Body) : Option Body :=
  within .implied
    (fun _ inner =>
      match inner.lookup key.last with
      | none => (fill []).map fun filled => inner ++ [(key.last, .table .header filled)]
      | some (.table .implied started) =>
        (fill started).map fun filled =>
          inner.erase key.last ++ [(key.last, .table .header filled)]
      | some _ => none)
    key.parents .header body

/-- Opens one more table of an array of tables and fills it. -/
def openElement (body : Body) (key : KeyPath) (fill : Body → Option Body) : Option Body :=
  within .implied
    (fun _ inner =>
      match inner.lookup key.last with
      | none => (fill []).map fun filled => inner ++ [(key.last, .tables [filled])]
      | some (.tables elements) =>
        (fill []).map fun filled => inner.put key.last (.tables (elements ++ [filled]))
      | some _ => none)
    key.parents .header body

end Body

/-! ## Finished tables -/

mutual

/-- The value of a draft. -/
def Draft.finish : Draft → Value
  | .value v => v
  | .table _ entries => .table (finishEntries entries)
  | .tables elements => .tables (finishTables elements)

/-- The entries of a finished table. -/
def finishEntries : List (String × Draft) → Entries
  | [] => []
  | (key, d) :: rest => (key, d.finish) :: finishEntries rest

/-- The elements of a finished array of tables. -/
def finishTables : List (List (String × Draft)) → List Entries
  | [] => []
  | body :: rest => finishEntries body :: finishTables rest

end

end FieldTree.Toml
