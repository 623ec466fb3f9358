/-
# Texts from outside

Some of what a program prints is written by the libraries that it is linked with, and not by the
program: help, words about a mistake in the arguments, scripts that complete commands in a shell,
and the lines of a log, which have the time of day in them. A run takes these texts as they are
given, and prints nothing of its own in their place.
-/
import FieldTree.CommandLine.Arguments

namespace FieldTree.CommandLine

/-- The texts that a run is given. -/
structure Wording where
  /-- The help for the level of some names. -/
  help : List String → String
  /-- What is said about arguments that make no sense. -/
  misuse : String
  /-- The script that completes the commands of the program in a shell. -/
  completion : Shell → String
  /-- What is logged in a call with more talk. -/
  log : Invocation → String

/-- No texts at all. -/
def Wording.silent : Wording := ⟨fun _ => "", "", fun _ => "", fun _ => ""⟩

/-- The version of the program. -/
def version : String := "0.3.0"

/-- The text about the version at a level. -/
def versionText (names : List String) : String := "-".intercalate names ++ " " ++ version ++ "\n"

end FieldTree.CommandLine
