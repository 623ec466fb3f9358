/-
# Files

What the library wants to know of the files around it: what stands under a path, and why
nothing can be read from there. A program fills this in from the disk, a test from a
snapshot.
-/
import FieldTree.Failure

namespace FieldTree

/-- What stands under a path. -/
inductive Entry where
  /-- Nothing, and why. -/
  | absent (reason : String)
  | directory
  | file (content : ByteArray)
  /-- Something that is no file, but is read like an empty one. -/
  | device
  /-- Something that cannot be opened, and why. -/
  | unreadable (reason : String)

/-- What stands under each path. -/
abbrev Files := String → Entry

namespace Entry

/-- Why nothing is found under a path. -/
def notFound : String := "No such file or directory (os error 2)"

/-- Why a path does not go on below a file. -/
def notADirectory : String := "Not a directory (os error 20)"

/-- Why a directory has no text. -/
def isADirectory : String := "Is a directory (os error 21)"

/-- Why a path with too many characters is not looked up. -/
def nameTooLong : String := "File name too long (os error 36)"

/-- Why a path with a null character is not looked up. -/
def nullInPath : String := "file name contained an unexpected NUL byte"

/-- Why a file has no text. -/
def notText : String := "stream did not contain valid UTF-8"

/-- Whether there is anything. -/
def exist : Entry → Bool
  | absent _ => false
  | _ => true

/-- Whether there is something with content. -/
def isFile : Entry → Bool
  | file _ | unreadable _ => true
  | _ => false

/-- The text of a file, or why there is none. -/
def text : Entry → Except String String
  | absent reason => .error reason
  | directory => .error isADirectory
  | unreadable reason => .error reason
  | device => .ok ""
  | file content =>
    match String.fromUTF8? content with
    | some text => .ok text
    | none => .error notText

end Entry

/-- The path of something in a directory. -/
def joinPath (directory name : String) : String :=
  if directory.toList.getLast?.all (· == '/') then directory ++ name else directory ++ "/" ++ name

/-- A path with slashes in place of backslashes. -/
def normalizePath (path : String) : String :=
  String.ofList (path.toList.map fun c => if c = '\\' then '/' else c)

end FieldTree
