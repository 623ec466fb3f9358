/-
# Running commands

A run depends on the arguments, the files, the environment and the terminal, and on the texts
that it is given. Settings are read before the schema; the root is chosen after it; nothing is
printed unless all goes well.
-/
import FieldTree.CommandLine.Output
import FieldTree.CommandLine.Wording
import FieldTree.Drawing
import FieldTree.Schema.Load
import FieldTree.Schema.Symbols
import FieldTree.Settings.Load
import FieldTree.Settings.Tree

namespace FieldTree.CommandLine

/-- What a run finds around it. -/
structure Surroundings where
  files : Files
  env : Environment
  /-- Where the global settings file would be, if that can be said. -/
  globalPath : Option String
  /-- Whether the output goes to a terminal. -/
  terminal : Bool

/-- The tree that a command on a schema file asks for, and the settings it was made under. -/
def fieldTree (around : Surroundings) (config : Option String) (schema : String)
    (root : Option String) : Except Failure (Settings × Arena Node) := do
  let settings ← Settings.load around.files around.globalPath config around.env
  let s ← Schema.load around.files schema
  let root ← chooseRoot root s.root
  return (settings, ← settings.tree s.introspection root)

/-- The line for one type of a schema. -/
def typeLine (s : Schema) (name : String) : String :=
  let mark := if s.root = some name then " (root)" else ""
  let content := match s.definition? name with
    | some (.struct members) => toString members.length ++ " members"
    | some (.union variants) => " | ".intercalate variants
    | none => ""
  "  " ++ name ++ mark ++ ": " ++ content ++ "\n"

/-- The list of the types of a schema file. -/
def typeList (around : Surroundings) (colours : Bool) (path : String) :
    Except Failure Printed := do
  let s ← Schema.load around.files path
  return .text (paint colours .header ("Types in " ++ normalizePath path) ++ "\n"
    ++ String.join (s.names.map (typeLine s)))

/-- The place of the global settings file. -/
def configPath (around : Surroundings) : Except Failure Printed :=
  match around.globalPath with
  | none => .error (.usage "cannot determine config directory")
  | some path =>
    let shown := normalizePath path
    if (around.files path).exist then .ok (.text (shown ++ "\n"))
    else .ok ⟨"", some (shown ++ " (does not exist)")⟩

/-- What a command prints. -/
def Command.print (wording : Wording) (around : Surroundings) (colours : Bool)
    (config : Option String) : Command → Except Failure Printed
  | tree schema root => do
    let (_, a) ← fieldTree around config schema root
    return .text (a.drawing ++ "\n")
  | lenses schema root => do
    let (settings, a) ← fieldTree around config schema root
    return .text (a.lensModule settings.idField)
  | types schema => typeList around colours schema
  | .config .view => do
    let settings ← Settings.load around.files around.globalPath config around.env
    return .text ((← settings.toToml) ++ "\n")
  | .config .template => .ok (.text (Settings.template ++ "\n"))
  | .config .path => configPath around
  | completion shell => .ok (.text (wording.completion shell))

/-- What is said to those who ask for more talk than there is. -/
def debugNotice (debug : Nat) : String :=
  if 4 ≤ debug then "Don't be crazy, max is -d -d -d\n" else ""

/-- What a call says about its own course: nothing, unless more talk was asked for. -/
def Invocation.talk (wording : Wording) (i : Invocation) : String :=
  if i.debug = 0 then "" else debugNotice i.debug ++ wording.log i

/-- The outcome of a call. Its course is told before its result. -/
def Invocation.outcome (wording : Wording) (around : Surroundings) (i : Invocation) : Outcome :=
  let colours := wantsColours around.env around.terminal
  let result := match i.command with
    | some command => command.print wording around colours i.config
    | none => .error (.usage "no command given, see --help")
  let outcome := Outcome.ofResult colours result
  { outcome with errors := i.talk wording ++ outcome.errors }

/-- The exit code of a call that makes no sense. -/
def misuseCode : Nat := 2

/-- The outcome of what arguments ask for. -/
def Request.outcome (wording : Wording) (around : Surroundings) : Request → Outcome
  | run i => i.outcome wording around
  | version names => ⟨ExitCode.ok, versionText names, ""⟩
  | help names => ⟨ExitCode.ok, wording.help names, ""⟩
  | misuse => ⟨misuseCode, "", wording.misuse⟩

/-- The outcome of a run with some arguments. -/
def run (around : Surroundings) (args : List String) (wording : Wording := .silent) : Outcome :=
  (Request.ofArguments args).outcome wording around

/-- The paths of the files that a call may read. -/
def Invocation.paths (i : Invocation) (globalPath : Option String) : List String :=
  let schema := match i.command with
    | some (.tree schema _) | some (.lenses schema _) | some (.types schema) => [schema]
    | _ => []
  globalPath.toList ++ i.config.toList ++ schema

end FieldTree.CommandLine
