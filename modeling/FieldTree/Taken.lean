/-
# Reading from the front of a list

A reader takes something off the front of a list and leaves the rest. `Taken` records
that the rest is strictly shorter, which is what makes a loop of readers end; `Left`
records that it is at least not longer, for readers that may take nothing.
-/

namespace FieldTree

variable {τ α β : Type}

/-- A value read off the front of `source`, and what is left after it. -/
structure Taken (source : List τ) (α : Type) where
  value : α
  rest : List τ
  shorter : rest.length < source.length

/-- A value read off the front of `source`, possibly from nothing, and what is left. -/
structure Left (source : List τ) (α : Type) where
  value : α
  rest : List τ
  notLonger : rest.length ≤ source.length

/-! ## Lengths -/

/-- What stands behind an item is shorter than what holds both. -/
theorem length_lt_of_eq_cons {l rest source : List τ} {c : τ} (h : l = c :: rest)
    (hl : l.length ≤ source.length) : rest.length < source.length := by
  subst h; exact hl

/-- What is left is shorter if something was passed over. -/
theorem length_dropWhile_lt {p : τ → Bool} {source : List τ} (h : source.takeWhile p ≠ []) :
    (source.dropWhile p).length < source.length := by
  have hlen := congrArg List.length (List.takeWhile_append_dropWhile (p := p) (l := source))
  have := List.length_pos_iff.2 h
  rw [List.length_append] at hlen
  omega

/-! ## Readers that take something -/

namespace Taken

/-- The value changed and the rest kept. -/
def map {source : List τ} (f : α → β) (t : Taken source α) : Taken source β :=
  ⟨f t.value, t.rest, t.shorter⟩

/-- What was taken from a tail was taken from the whole. -/
def within {source tail : List τ} (t : Taken tail α) (h : tail.length ≤ source.length) :
    Taken source α :=
  ⟨t.value, t.rest, Nat.lt_of_lt_of_le t.shorter h⟩

/-- What was taken behind an item was taken from the whole. -/
def behind {c : τ} {tail : List τ} (t : Taken tail α) : Taken (c :: tail) α :=
  t.within (Nat.le_succ _)

/-- Items read before the ones that were taken from a tail. -/
def before {source tail : List τ} (items : List α) (t : Taken tail (List α))
    (h : tail.length ≤ source.length) : Taken source (List α) :=
  (t.map (items ++ ·)).within h

/-- A taken value and its rest, without the bound on the rest. -/
def pair {source : List τ} (t : Taken source α) : α × List τ := (t.value, t.rest)

@[simp] theorem pair_mk {source : List τ} (value : α) (rest : List τ) (h) :
    (⟨value, rest, h⟩ : Taken source α).pair = (value, rest) := rfl

@[simp] theorem pair_map {source : List τ} (f : α → β) (t : Taken source α) :
    (t.map f).pair = (f t.value, t.rest) := rfl

/-- What a reader gives, told by its value and its rest. -/
theorem map_pair_eq_some {source rest : List τ} {read : Option (Taken source α)} {value : α} :
    read.map pair = some (value, rest) ↔ ∃ t, read = some t ∧ t.value = value ∧ t.rest = rest := by
  rw [Option.map_eq_some_iff]
  refine exists_congr fun t => and_congr_right fun _ => ?_
  rw [pair, Prod.mk.injEq]

end Taken

/-! ## Readers that may take nothing -/

namespace Left

/-- A taken value and its rest, without the bound on the rest. -/
def pair {source : List τ} (t : Left source α) : α × List τ := (t.value, t.rest)

end Left

end FieldTree
