/-
# Computations that keep a trace

A computation over named types that notes every symbol whose members it looks up, and that
may fail. What was looked up before a failure stays noted.
-/
import FieldTree.Failure

namespace FieldTree

/-- The symbols looked up, in order, and how it went. -/
structure Traced (α : Type) where
  lookups : List String
  outcome : Except Failure α

namespace Traced

variable {α β : Type}

/-- A value, without a look-up. -/
def ok (value : α) : Traced α := ⟨[], .ok value⟩

/-- A failure, without a look-up. -/
def fail (failure : Failure) : Traced α := ⟨[], .error failure⟩

/-- Looks up one symbol. -/
def note (symbol : String) : Traced Unit := ⟨[symbol], .ok ()⟩

/-- Goes on with the value of a computation; a failure ends the whole. -/
def andThen (x : Traced α) (f : α → Traced β) : Traced β :=
  match x.outcome with
  | .ok value => ⟨x.lookups ++ (f value).lookups, (f value).outcome⟩
  | .error failure => ⟨x.lookups, .error failure⟩

instance : Monad Traced where
  pure := ok
  bind := andThen

/-! ## Facts about one step -/

@[simp] theorem ok_andThen (value : α) (f : α → Traced β) : (ok value).andThen f = f value := by
  simp [andThen, ok]

@[simp] theorem note_andThen (symbol : String) (f : Unit → Traced β) :
    (note symbol).andThen f = ⟨symbol :: (f ()).lookups, (f ()).outcome⟩ := by
  simp [andThen, note]

/-- A sequence ends as its second part does on the value of the first. -/
theorem outcome_andThen (x : Traced α) (f : α → Traced β) :
    (x.andThen f).outcome = x.outcome.bind fun value => (f value).outcome := by
  unfold andThen
  cases x.outcome <;> rfl

end Traced

end FieldTree
