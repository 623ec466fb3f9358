/-
# Output of the command line

What a run leaves behind: an exit code and the text on the two output streams. Headings and
the words `error` and `Warning` are coloured where colours are wanted.
-/
import FieldTree.Failure
import FieldTree.Settings.Environment

namespace FieldTree.CommandLine

/-- What a run leaves behind. -/
structure Outcome where
  code : Nat
  output : String
  errors : String
  deriving DecidableEq, Repr

/-! ## Colours -/

/-- How a text is shown on a terminal. -/
inductive Style where
  | header
  | error
  | warning

/-- The control sequence that starts a style. -/
def Style.start : Style → String
  | header => "\x1b[1;36m"
  | error => "\x1b[1;31m"
  | warning => "\x1b[33m"

/-- Characters in which a style starts again wherever they put an end to styles. -/
def restarting (start : List Char) : List Char → List Char
  | '\x1b' :: '[' :: '0' :: 'm' :: rest =>
    '\x1b' :: '[' :: '0' :: 'm' :: (start ++ restarting start rest)
  | c :: rest => c :: restarting start rest
  | [] => []

/-- A text in a style, if colours are wanted. The style lasts to the end of the text. -/
def paint (colours : Bool) (style : Style) (s : String) : String :=
  if colours then
    style.start ++ String.ofList (restarting style.start.toList s.toList) ++ "\x1b[0m"
  else s

/-- Whether a variable is set to something other than zero. -/
def isOn (env : Environment) (name : String) : Option Bool := (env.value? name).map (· != "0")

/-- Whether colours are wanted: they may be forced, or switched off, or else are wanted on a
terminal unless said otherwise. -/
def wantsColours (env : Environment) (terminal : Bool) : Bool :=
  if isOn env "CLICOLOR_FORCE" = some true then true
  else if (isOn env "NO_COLOR").isSome then false
  else (isOn env "CLICOLOR").getD true && terminal

/-! ## Outcomes -/

/-- What a command that goes well leaves behind. -/
structure Printed where
  output : String
  warning : Option String

/-- A text printed as it is. -/
def Printed.text (output : String) : Printed := ⟨output, none⟩

/-- The outcome of a command. A command that fails leaves its error and no output. -/
def Outcome.ofResult (colours : Bool) : Except Failure Printed → Outcome
  | .ok p => ⟨ExitCode.ok, p.output, p.warning.elim "" (remark .warning "Warning")⟩
  | .error f => ⟨f.exitCode, "", remark .error "error" f.message⟩
where
  remark (style : Style) (word text : String) : String :=
    paint colours style word ++ ": " ++ text ++ "\n"

end FieldTree.CommandLine
