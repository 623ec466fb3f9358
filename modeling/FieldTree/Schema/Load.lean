/-
# Loading schemas

A schema is loaded from one file, which has to be there, to be a file, to be readable and to
hold a schema, in this order.
-/
import FieldTree.Files
import FieldTree.Schema.Format

namespace FieldTree

/-- The schema in a file. -/
def Schema.load (files : Files) (path : String) : Except Failure Schema :=
  let entry := files path
  if !entry.exist then .error (.fileNotFound path)
  else if !entry.isFile then .error (.schema path "not a file")
  else
    match entry.text with
    | .error _ => .error (.io ("read schema " ++ path))
    | .ok text => Schema.parse text path

end FieldTree
