/-
# Loading settings

Settings are put together from four layers: the defaults, the global file if there is one,
the file given for a run, and the environment. A file that cannot be read or understood
ends the loading; what the layers say together is checked once, at the end.
-/
import FieldTree.Files
import FieldTree.Settings.Environment
import FieldTree.Settings.Format

namespace FieldTree

namespace Overlay

/-- The layer that a file states. -/
def load (files : Files) (path : String) : Except Failure Overlay :=
  match (files path).text with
  | .error reason => .error (.config ("read " ++ path ++ ": " ++ reason))
  | .ok text =>
    match parse text with
    | .error e => .error (.config ("parse " ++ path ++ ": " ++ e.message))
    | .ok layer => .ok layer

/-- The layer of a file that may be missing. -/
def loadIfThere (files : Files) (path : Option String) : Except Failure Overlay :=
  match path with
  | none => .ok .empty
  | some path => if (files path).exist then load files path else .ok .empty

/-- The layer of a file that may be left out but not be missing. -/
def loadIfGiven (files : Files) (path : Option String) : Except Failure Overlay :=
  match path with
  | none => .ok .empty
  | some path => load files path

end Overlay

namespace Settings

/-- The path of the global settings file: in the directory for settings if one is named from
the root on, or else in the home directory. -/
def globalPath? (env : Environment) : Option String :=
  let named := (env.value? "XDG_CONFIG_HOME").filter (·.toList.head? == some '/')
  let inHome := ((env.value? "HOME").filter (· != "")).map (joinPath · ".config")
  (named <|> inHome).map (joinPath · "typetree/typetree.toml")

/-- The settings of a run. -/
def load (files : Files) (globalPath localPath : Option String) (env : Environment) :
    Except Failure Settings := do
  let global ← Overlay.loadIfThere files globalPath
  let given ← Overlay.loadIfGiven files localPath
  let s := ((defaults.merge global).merge given).merge env.overlay
  s.validate
  return s

end Settings

end FieldTree
