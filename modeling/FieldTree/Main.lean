/-
# The program

Gathers what a run depends on, runs it, and prints what it leaves behind. No library that writes
help, completions or logs is linked in, so these texts are empty here.
-/
import FieldTree.CommandLine.Run

namespace FieldTree.Main

open CommandLine

/-- The reason that a system error code stands for. -/
def reason (code : UInt32) (details : String) : String :=
  match code with
  | 2 => Entry.notFound
  | 13 => "Permission denied (os error 13)"
  | 20 => Entry.notADirectory
  | 36 => Entry.nameTooLong
  | _ => details

/-- What stands under a path on the disk. -/
def look (path : String) : IO Entry := do
  try
    return .file (← IO.FS.readBinFile path)
  catch
    | .noFileOrDirectory _ code details => return .absent (reason code details)
    | .inappropriateType _ code details =>
      return if code = 21 then .directory else .absent (reason code details)
    | .invalidArgument _ code details => return .absent (reason code details)
    | .permissionDenied _ code details => return .unreadable (reason code details)
    | e => return .unreadable (toString e)

/-- The variables that a run may look at under their usual names. -/
def usualNames : List String :=
  ["HOME", "XDG_CONFIG_HOME", "CLICOLOR", "CLICOLOR_FORCE", "NO_COLOR",
   "TYPETREE_HANDLERS", "TYPETREE_MAX_DEPTH", "TYPETREE_ID_FIELD"]

/-- The environment of the program: the block that the system shows, where it shows one, or
else the variables under their usual names. -/
def environment : IO Environment := do
  match (← look "/proc/self/environ").text with
  | .ok block => return .ofBlock block
  | .error _ =>
    usualNames.filterMapM fun name => do
      return (← IO.getEnv name).map (name, ·)

/-- Runs the program on its arguments. -/
def start (args : List String) : IO UInt32 := do
  let env ← environment
  let globalPath := Settings.globalPath? env
  let request := Request.ofArguments args
  let paths := match request with
    | .run i => i.paths globalPath
    | _ => []
  let found ← paths.mapM fun path => do return (path, ← look path)
  let files : Files := fun path => (found.lookup path).getD (.absent Entry.notFound)
  let terminal ← (← IO.getStdout).isTty
  let outcome := request.outcome .silent ⟨files, env, globalPath, terminal⟩
  IO.print outcome.output
  IO.eprint outcome.errors
  return outcome.code.toUInt32

end FieldTree.Main

/-- The program. -/
def main (args : List String) : IO UInt32 := FieldTree.Main.start args
