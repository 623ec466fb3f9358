/-
# Symbols

The structs that a name stands for: itself if it is one, the structs of the variants if it
is a union, nothing if it is not defined. Variants are followed in order and no name is
followed twice, so unions may refer to each other in circles.
-/
import FieldTree.Introspection
import FieldTree.Schema.Basic

namespace FieldTree.Schema

/-- The defined names that have not been followed yet. -/
def unseen (s : Schema) (seen : List String) : List String :=
  s.names.filter fun name => !seen.contains name

/-- Following one more defined name leaves fewer. -/
theorem unseen_cons_length {s : Schema} {seen : List String} {name : String} {d : Definition}
    (hd : s.definition? name = some d) (hs : name ∉ seen) :
    (s.unseen (name :: seen)).length < (s.unseen seen).length := by
  have hsub : (s.unseen (name :: seen)) = (s.unseen seen).filter (· != name) := by
    simp only [unseen, List.filter_filter]
    congr 1
    funext other
    by_cases h : other = name <;> simp [h]
  rw [hsub, List.length_filter_lt_length_iff_exists]
  exact ⟨name, by simp [unseen, mem_names_of_definition? hd, hs], by simp⟩

/-- The structs reached from pending names, when the names in `seen` have been followed. -/
def reach (s : Schema) (seen : List String) : List String → List String
  | [] => []
  | name :: pending =>
    if _hs : name ∈ seen then s.reach seen pending
    else
      match _hd : s.definition? name with
      | none => s.reach seen pending
      | some (.struct _) => name :: s.reach (name :: seen) pending
      | some (.union variants) => s.reach (name :: seen) (variants ++ pending)
termination_by pending => ((s.unseen seen).length, pending.length)
decreasing_by
  · exact Prod.Lex.right _ (Nat.lt_succ_self _)
  · exact Prod.Lex.right _ (Nat.lt_succ_self _)
  · exact Prod.Lex.left _ _ (unseen_cons_length _hd _hs)
  · exact Prod.Lex.left _ _ (unseen_cons_length _hd _hs)

/-- The structs that a name stands for, each once. -/
def symbols (s : Schema) (name : String) : List String := s.reach [] [name]

/-- What a schema answers about names. A tree over a schema repeats a type on a path as soon
as the path is longer than the number of structs. -/
def introspection (s : Schema) : Introspection where
  symbols := s.symbols
  members := s.members?
  horizon := s.structs.length

/-! ## Facts about one step -/

@[simp] theorem reach_nil (s : Schema) (seen : List String) : s.reach seen [] = [] := by
  rw [reach]

theorem reach_of_mem {s : Schema} {seen pending : List String} {name : String}
    (h : name ∈ seen) : s.reach seen (name :: pending) = s.reach seen pending := by
  rw [reach, dif_pos h]

theorem reach_of_undefined {s : Schema} {seen pending : List String} {name : String}
    (hd : s.definition? name = none) :
    s.reach seen (name :: pending) = s.reach seen pending := by
  rw [reach]
  split
  · rfl
  · split <;> simp_all

theorem reach_of_struct {s : Schema} {seen pending : List String} {name : String}
    {members : List Member} (h : name ∉ seen) (hd : s.definition? name = some (.struct members)) :
    s.reach seen (name :: pending) = name :: s.reach (name :: seen) pending := by
  rw [reach, dif_neg h]
  split <;> simp_all

theorem reach_of_union {s : Schema} {seen pending variants : List String} {name : String}
    (h : name ∉ seen) (hd : s.definition? name = some (.union variants)) :
    s.reach seen (name :: pending) = s.reach (name :: seen) (variants ++ pending) := by
  rw [reach, dif_neg h]
  split <;> simp_all

end FieldTree.Schema
