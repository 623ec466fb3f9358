/-
# Settings

How types are decomposed and lenses are named. Settings come in layers: each layer states
some of them, and a later layer wins where it states one.
-/
import FieldTree.Failure
import FieldTree.Handler

namespace FieldTree

/-- The settings of a run. -/
structure Settings where
  /-- The names of the handlers, first to be tried first. -/
  handlers : List String
  /-- The deepest level that a field may stand at. -/
  maxDepth : Nat
  /-- The key field of records. -/
  idField : String
  deriving DecidableEq, Repr

/-- The settings that one layer states. -/
structure Overlay where
  handlers : Option (List String)
  maxDepth : Option Nat
  idField : Option String
  deriving DecidableEq, Repr

namespace Overlay

/-- The layer that states nothing. -/
def empty : Overlay := ⟨none, none, none⟩

/-- Two layers as one: what the later layer states counts. -/
def andThen (earlier later : Overlay) : Overlay where
  handlers := later.handlers <|> earlier.handlers
  maxDepth := later.maxDepth <|> earlier.maxDepth
  idField := later.idField <|> earlier.idField

end Overlay

namespace Settings

/-- The settings that hold when no layer says otherwise. -/
def defaults : Settings := ⟨Handler.defaultNames, 32, "id"⟩

/-- The settings with what a layer states in place of what they were. -/
def merge (s : Settings) (layer : Overlay) : Settings where
  handlers := layer.handlers.getD s.handlers
  maxDepth := layer.maxDepth.getD s.maxDepth
  idField := layer.idField.getD s.idField

/-- Refuses settings that cannot be worked with. -/
def validate (s : Settings) : Except Failure Unit :=
  if Text.allBlank s.idField then .error (.config "id_field must not be empty")
  else if s.maxDepth = 0 then .error (.config "max_depth must be at least 1")
  else .ok ()

/-! ## Facts about layers -/

/-- Merging two layers one after another is merging them as one. -/
theorem merge_merge (s : Settings) (a b : Overlay) :
    (s.merge a).merge b = s.merge (a.andThen b) := by
  obtain ⟨_ | _, _ | _, _ | _⟩ := b <;> rfl

end Settings

end FieldTree
