/-
# Arguments of the command line

The arguments name a command and its parts. They are read from left to right, level by
level: options of the program, the command, its own options and operands. An option with a
value takes it from its own argument or from the next one; short options may share an
argument; after `--` everything is an operand. Asking for help or for the version ends the
reading there and then, and so does the first mistake. A value in an argument of its own is
looked at when the reading goes on at its level; what comes after a command is read before.
-/

namespace FieldTree.CommandLine

/-! ## What is asked for -/

/-- The shells that completions can be written for. -/
inductive Shell where
  | bash
  | elvish
  | fish
  | powershell
  | zsh
  deriving DecidableEq, Repr

namespace Shell

/-- All shells. -/
def all : List Shell := [bash, elvish, fish, powershell, zsh]

/-- The name of a shell. -/
def name : Shell → String
  | bash => "bash"
  | elvish => "elvish"
  | fish => "fish"
  | powershell => "powershell"
  | zsh => "zsh"

/-- The shell of a name. -/
def named? (word : String) : Option Shell := all.find? (·.name == word)

end Shell

/-- What is to be done with the settings. -/
inductive ConfigAction where
  | view
  | template
  | path
  deriving DecidableEq, Repr

/-- What the program is to do. -/
inductive Command where
  /-- Draw the tree of a type. -/
  | tree (schema : String) (root : Option String)
  /-- Write the lens module of a type. -/
  | lenses (schema : String) (root : Option String)
  /-- List the types of a schema. -/
  | types (schema : String)
  | config (action : ConfigAction)
  | completion (shell : Shell)
  deriving DecidableEq, Repr

/-- A call of the program. -/
structure Invocation where
  /-- How many times more talk was asked for. -/
  debug : Nat
  /-- The settings file given for this run. -/
  config : Option String
  command : Option Command
  deriving DecidableEq, Repr

/-- What arguments ask for. -/
inductive Request where
  | run (i : Invocation)
  /-- The version of the program under the names of the levels that were entered. -/
  | version (names : List String)
  /-- Help with the level of some names. -/
  | help (names : List String)
  /-- Nothing that makes sense. -/
  | misuse
  deriving DecidableEq, Repr

/-! ## Levels -/

/-- A level of the command line: the program, a command, or a command of a command. -/
structure Level where
  names : List String
  /-- Whether there is an option for a root type. -/
  takesRoot : Bool
  /-- The operands that are allowed, if there is an operand. -/
  operand : Option (String → Bool)
  commands : List String

/-- The options that have a value. -/
inductive Valued where
  | config
  | root
  deriving DecidableEq, Repr

/-- What was given at one level so far. -/
structure Given where
  debug : Option Nat
  config : Option String
  root : Option String
  operand : Option String
  /-- The last option and its value, as long as the value has not been looked at. -/
  held : Option (Valued × String)

/-- Why the reading of arguments ended early. -/
inductive Stop where
  | version
  | help
  | misuse

namespace Given

/-- Nothing given yet. -/
def nothing : Given := ⟨none, none, none, none, none⟩

/-- More talk asked for once more. -/
def countDebug (g : Given) : Given := { g with debug := some (g.debug.getD 0 + 1) }

/-- The value of an option given. No option may be given twice, and a file has a name. -/
def set (g : Given) (option : Valued) (value : String) : Except Stop Given :=
  match option with
  | .config =>
    if g.config.isSome ∨ value = "" then .error .misuse else .ok { g with config := some value }
  | .root => if g.root.isSome then .error .misuse else .ok { g with root := some value }

/-- The value of an option given, to be looked at later. -/
def hold (g : Given) (option : Valued) (value : String) : Given :=
  { g with held := some (option, value) }

/-- Looks at the value that is held. -/
def settle (g : Given) : Except Stop Given :=
  match g.held with
  | none => .ok g
  | some (option, value) => Given.set { g with held := none } option value

/-- An operand given, which must be allowed and the only one. -/
def add (g : Given) (l : Level) (value : String) : Except Stop Given :=
  if g.operand.isNone ∧ l.operand.any (· value) then .ok { g with operand := some value }
  else .error .misuse

end Given

namespace Level

/-- The option with a value that has a letter at this level. -/
def short? (l : Level) (c : Char) : Option Valued :=
  if c = 'c' then some .config
  else if c = 'r' ∧ l.takesRoot then some .root
  else none

/-- The option with a value that has a name at this level. -/
def long? (l : Level) (name : String) : Option Valued :=
  if name = "config" then some .config
  else if name = "root" ∧ l.takesRoot then some .root
  else none

/-- Reads the letters of an argument of short options; an option whose value is still to come
is returned. -/
def readLetters (l : Level) (g : Given) : List Char → Except Stop (Given × Option Valued)
  | [] => .ok (g, none)
  | 'd' :: rest => l.readLetters g.countDebug rest
  | 'h' :: _ => .error .help
  | 'V' :: _ => .error .version
  | c :: rest =>
    match l.short? c, rest with
    | none, _ => .error .misuse
    | some option, [] => .ok (g, some option)
    | some option, '=' :: value => return (← g.set option (String.ofList value), none)
    | some option, value => return (← g.set option (String.ofList value), none)

/-- Reads an argument of one long option, after its two dashes. -/
def readWord (l : Level) (g : Given) (word : List Char) : Except Stop (Given × Option Valued) :=
  let name := String.ofList (word.takeWhile (· != '='))
  match l.long? name, word.dropWhile (· != '=') with
  | some option, [] => .ok (g, some option)
  | some option, _ :: value => return (← g.set option (String.ofList value), none)
  | none, [] =>
    if name = "debug" then .ok (g.countDebug, none)
    else if name = "help" then .error .help
    else if name = "version" then .error .version
    else .error .misuse
  | none, _ :: _ => .error .misuse

/-- Whether an argument cannot be the value of an option: it starts with a dash and goes on. -/
def isOption (arg : String) : Bool :=
  match arg.toList with
  | '-' :: _ :: _ => true
  | _ => false

/-- Reads the arguments of a level up to a command of the next one, which is returned with the
arguments after it. `pending` is an option that waits for its value; `literal` says that
only operands follow. A value before a command is still held. -/
def read (l : Level) (g : Given) (pending : Option Valued) (literal : Bool) :
    List String → Except Stop (Given × Option (String × List String))
  | [] => if pending.isSome then .error .misuse else do return (← g.settle, none)
  | arg :: rest =>
    match pending with
    | some option =>
      if isOption arg then .error .misuse else l.read (g.hold option arg) none literal rest
    | none =>
      if !literal && l.commands.contains arg then .ok (g, some (arg, rest))
      else do
        let g ← g.settle
        if literal then l.read (← g.add l arg) none literal rest
        else if arg = "--" then l.read g none true rest
        else
          match arg.toList with
          | '-' :: '-' :: word => do
            let (g, pending) ← l.readWord g word
            l.read g pending literal rest
          | '-' :: c :: letters => do
            let (g, pending) ← l.readLetters g (c :: letters)
            l.read g pending literal rest
          | _ => do l.read (← g.add l arg) none literal rest

end Level

/-! ## The levels of the program -/

/-- The name of the program. -/
def program : String := "typetree"

/-- The commands of the program. -/
def commands : List String := ["tree", "lenses", "types", "config", "completion", "help"]

/-- The commands that concern the settings. -/
def configCommands : List String := ["show", "template", "path", "help"]

/-- The level of the program itself. -/
def topLevel : Level := ⟨[program], false, none, commands⟩

/-- The level of a command on a schema file. -/
def schemaLevel (name : String) (takesRoot : Bool) : Level :=
  ⟨[program, name], takesRoot, some (· != ""), []⟩

/-- The level of the commands that concern the settings. -/
def configLevel : Level := ⟨[program, "config"], false, none, configCommands⟩

/-- The level of one command that concerns the settings. -/
def actionLevel (name : String) : Level := ⟨[program, "config", name], false, none, []⟩

/-- The level of the command for completions. -/
def completionLevel : Level :=
  ⟨[program, "completion"], false, some fun word => (Shell.named? word).isSome, []⟩

/-! ## Reading arguments -/

/-- What an early end of the reading at a level asks for. -/
def Stop.request (l : Level) : Stop → Request
  | version => .version l.names
  | help => .help l.names
  | misuse => .misuse

/-- Reads the arguments of a level from their start. -/
def Level.enter (l : Level) (args : List String) :
    Except Request (Given × Option (String × List String)) :=
  (l.read .nothing none false args).mapError (Stop.request l)

/-- Comes back to a level after a command has been read. -/
def Level.leave (l : Level) (g : Given) : Except Request Given :=
  g.settle.mapError (Stop.request l)

/-- What is given at a level and at the one inside it. An option given inside counts. -/
def Given.around (outer inner : Given) : Given :=
  { inner with
    debug := inner.debug <|> outer.debug
    config := inner.config <|> outer.config }

/-- The help that a list of names asks for at a level. -/
def helpWith (names commands : List String) : List String → Request
  | [] => .help names
  | [name] => if name ∈ commands then .help (names ++ [name]) else .misuse
  | ["config", name] =>
    if "config" ∈ commands ∧ name ∈ configCommands then .help (names ++ ["config", name])
    else .misuse
  | _ => .misuse

/-- What the arguments after a command on a schema file ask for. -/
def readSchemaCommand (name : String) (takesRoot : Bool)
    (make : String → Option String → Command) (args : List String) :
    Except Request (Given × Command) := do
  let (given, _) ← (schemaLevel name takesRoot).enter args
  match given.operand with
  | some schema => return (given, make schema given.root)
  | none => .error .misuse

/-- The action of a name. -/
def action? : String → Option ConfigAction
  | "show" => some .view
  | "template" => some .template
  | "path" => some .path
  | _ => none

/-- What the arguments after `config` ask for. -/
def readConfigCommand (args : List String) : Except Request (Given × Command) := do
  let (given, next) ← configLevel.enter args
  match next with
  | none => .error .misuse
  | some (name, rest) =>
    match action? name with
    | none => .error (helpWith configLevel.names configCommands rest)
    | some action =>
      let (inner, _) ← (actionLevel name).enter rest
      return ((← configLevel.leave given).around inner, .config action)

/-- What the arguments after `completion` ask for. -/
def readCompletionCommand (args : List String) : Except Request (Given × Command) := do
  let (given, _) ← completionLevel.enter args
  match given.operand.bind Shell.named? with
  | some shell => return (given, .completion shell)
  | none => .error .misuse

/-- What the arguments after a command ask for. -/
def readCommand (name : String) (args : List String) : Except Request (Given × Command) :=
  match name with
  | "tree" => readSchemaCommand "tree" true .tree args
  | "lenses" => readSchemaCommand "lenses" true .lenses args
  | "types" => readSchemaCommand "types" false (fun schema _ => .types schema) args
  | "config" => readConfigCommand args
  | "completion" => readCompletionCommand args
  | _ => .error (helpWith topLevel.names commands args)

/-- The call that arguments make, or what they ask for instead. -/
def readCall (args : List String) : Except Request Invocation := do
  let (outer, next) ← topLevel.enter args
  match next with
  | none => return ⟨outer.debug.getD 0, outer.config, none⟩
  | some (name, rest) =>
    let (inner, command) ← readCommand name rest
    let given := (← topLevel.leave outer).around inner
    return ⟨given.debug.getD 0, given.config, some command⟩

/-- What arguments ask for. -/
def Request.ofArguments (args : List String) : Request :=
  match readCall args with
  | .ok i => .run i
  | .error request => request

/-! ## Small facts -/

example : Request.ofArguments ["-dd", "tree", "a.toml", "--root", "A"]
    = .run ⟨2, none, some (.tree "a.toml" (some "A"))⟩ := by decide +kernel

example : Request.ofArguments ["-c", "a", "config", "show", "-cb"]
    = .run ⟨0, some "b", some (.config .view)⟩ := by decide +kernel

example : Request.ofArguments ["tree", "-V"] = .version ["typetree", "tree"] := by decide +kernel

/-- A file without a name is noticed after the command has been read. -/
example : Request.ofArguments ["-c", "", "tree", "-V"] = .version ["typetree", "tree"]
    ∧ Request.ofArguments ["-c", "", "tree", "a"] = .misuse := by decide +kernel

end FieldTree.CommandLine
