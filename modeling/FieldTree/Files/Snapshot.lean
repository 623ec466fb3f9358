/-
# Snapshots of a directory

A directory with everything in it, as a list of paths with their contents. Paths are
followed part by part as on a disk: `.` stays, `..` goes back, and only a directory leads
on.
-/
import FieldTree.Files

namespace FieldTree

/-- A directory: its name, and the files and directories in it under the parts of their paths. -/
structure Snapshot where
  home : String
  entries : List (List String × Entry)

namespace Snapshot

/-- The parts of a path between its slashes. -/
def parts (path : String) : List String :=
  (path.toList.splitOnP (· == '/')).map String.ofList

/-- A snapshot of entries under written paths. -/
def ofList (home : String) (entries : List (String × Entry)) : Snapshot :=
  ⟨home, entries.map fun entry => ((parts entry.1).filter (· != ""), entry.2)⟩

/-- What stands under the parts of a path. A directory is there as soon as something is in it. -/
def at? (s : Snapshot) (path : List String) : Option Entry :=
  match s.entries.lookup path with
  | some entry => some entry
  | none =>
    if path = [] ∨ s.entries.any (fun entry => path.isPrefixOf entry.1) then some .directory
    else none

/-- How many bytes the name of a file may have. -/
def longestName : Nat := 255

/-- How many bytes a path may have. -/
def longestPath : Nat := 4095

/-- Where a walk along a path has come to. -/
inductive Place where
  /-- Below the home directory. -/
  | inside (path : List String)
  /-- So many levels above it. -/
  | above (levels : Nat)

/-- What stands at a place. -/
def entryAt (s : Snapshot) : Place → Entry
  | .inside path => (s.at? path).getD (.absent Entry.notFound)
  | .above _ => .directory

/-- Goes along the parts of a path. -/
def walk (s : Snapshot) (place : Place) : List String → Entry
  | [] => s.entryAt place
  | part :: rest =>
    match s.entryAt place with
    | .absent reason => .absent reason
    | .file _ | .device | .unreadable _ => .absent Entry.notADirectory
    | .directory =>
      if part = "" ∨ part = "." then s.walk place rest
      else if longestName < part.utf8ByteSize then .absent Entry.nameTooLong
      else
        match place with
        | .inside path =>
          if part = ".." then
            s.walk (if path = [] then .above 1 else .inside path.dropLast) rest
          else s.walk (.inside (path ++ [part])) rest
        | .above levels =>
          if part = ".." then s.walk (.above (levels + 1)) rest else .absent Entry.notFound

/-- The files that a snapshot stands for. A path is taken from the home directory on, unless
it starts with a slash; of such paths only those through the home directory lead anywhere. -/
def files (s : Snapshot) : Files := fun path =>
  if path.toList.contains '\x00' then .absent Entry.nullInPath
  else if longestPath < path.utf8ByteSize then .absent Entry.nameTooLong
  else
    let below := (s.home ++ "/").toList
    if path = "" then .absent Entry.notFound
    else if path = s.home then .directory
    else if below.isPrefixOf path.toList then
      s.walk (.inside []) (parts (String.ofList (path.toList.drop below.length)))
    else if path.toList.head? = some '/' then
      if path.toList.all (· == '/') then .directory else .absent Entry.notFound
    else s.walk (.inside []) (parts path)

end Snapshot

end FieldTree
