/-
# Sets of characters as ranges of codes

A property of characters is written down as the runs of codes that have it.
`Ranges.contains` reads such a table; `Ranges.Ascending` says that the runs stand in
order and apart, so that no code is listed twice.
-/

namespace FieldTree.Text

/-- A set of codes: the first and the last code of each run. -/
abbrev Ranges := List (Nat × Nat)

namespace Ranges

/-- Whether a code lies in one of the runs. -/
def contains (table : Ranges) (code : Nat) : Bool :=
  table.any fun run => run.1 ≤ code && code ≤ run.2

/-- The runs are not empty, ascend, and do not touch. -/
def Ascending : Ranges → Prop
  | [] => True
  | [run] => run.1 ≤ run.2
  | run :: next :: rest => run.1 ≤ run.2 ∧ run.2 + 1 < next.1 ∧ Ascending (next :: rest)

/-- A code is in the set iff some run spans it. -/
theorem contains_iff {table : Ranges} {code : Nat} :
    table.contains code = true ↔ ∃ run ∈ table, run.1 ≤ code ∧ code ≤ run.2 := by
  simp [contains]

end Ranges

end FieldTree.Text
