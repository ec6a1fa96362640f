import LaneScript.Import.Source

/-!
# A tree of files

A snapshot of a disk: some files, the directories on the way to them, and the working directory.
A path is followed part by part, and every part that something stands behind has to be a directory.
There are no links, so that two dots always lead back.

The tree grows by writing files.  Writing makes the directories that the path goes through, also
those that it leaves again by two dots, and replaces what an earlier file of the place held.
-/

namespace LaneScript

/-- The files and directories of a disk by the names on the way to them from the root, and the
working directory.  A later file of a place stands before an earlier one. -/
structure FileTree where
  directory : List String
  directories : List (List String) := []
  files : List (List String × ByteArray) := []

namespace FileTree

/-- What stands at a place. -/
inductive Entry where
  | directory
  | file (content : ByteArray)

/-- What stands at a place: a file, or a directory, as those that lead to the working directory. -/
def entry? (tree : FileTree) (place : List String) : Option Entry :=
  match tree.files.lookup place with
  | some content => some (.file content)
  | none =>
    if place.isPrefixOf tree.directory || tree.directories.contains place then some .directory
    else none

/-- The place behind another one, by a part of a path. -/
def behind (place : List String) (part : String) : List String :=
  if part == "" || part == "." then place
  else if part == ".." then place.dropLast
  else place ++ [part]

/-- The parts of a path, between its slashes. -/
def parts (path : Path) : List String := (Path.splitAfter [] path.text.toList).map String.ofList

/-- The place where the parts of a path start. -/
def start (tree : FileTree) (path : Path) : List String :=
  if path.isAbsolute then [] else tree.directory

/-! ### Writing -/

/-- The places behind the parts of a path, one by one. -/
def placesBehind (place : List String) : List String → List (List String)
  | [] => []
  | part :: others => behind place part :: placesBehind (behind place part) others

/-- Writes a file, with the directories on the way to it. -/
def write (tree : FileTree) (path : Path) (content : ByteArray) : FileTree :=
  let places := placesBehind (tree.start path) (parts path)
  { tree with
    directories := places.dropLast ++ tree.directories
    files := (places.getLast?.getD [], content) :: tree.files }

/-! ### Reading -/

/-- Enters a part of a path from a place, which has to be a directory. -/
def enter (tree : FileTree) (place : List String) (part : String) :
    Except SourceFault (List String) :=
  match tree.entry? place with
  | some .directory =>
    if 255 < part.utf8ByteSize then .error .nameTooLong
    else if (tree.entry? (behind place part)).isSome then .ok (behind place part)
    else .error .noSuchFile
  | _ => .error .notADirectory

/-- The path holds the character that ends a name. -/
def holdsNul (path : Path) : Bool := path.text.toList.contains '\x00'

/-- The place that a path leads to. -/
def locate (tree : FileTree) (path : Path) : Except SourceFault (List String) :=
  if holdsNul path then .error .nulInName
  else if path.text.isEmpty then .error .noSuchFile
  else (parts path).foldlM tree.enter (tree.start path)

/-- The text of a file.  Only to be opened, a path has to be shorter than 4096 bytes. -/
def read (tree : FileTree) (path : Path) : Except SourceFault String := do
  if 4096 ≤ path.text.utf8ByteSize && !holdsNul path then throw .nameTooLong
  match tree.entry? (← tree.locate path) with
  | some (.file content) =>
    match String.fromUTF8? content with
    | some text => .ok text
    | none => .error .undecodable
  | some .directory => .error .isADirectory
  | none => .error .noSuchFile

/-- The absolute path of a place. -/
def pathOf (place : List String) : Path := ⟨"/" ++ "/".intercalate place⟩

/-- The tree as a source of scripts. -/
def provider (tree : FileTree) : Provider Id where
  read := tree.read
  resolve base path := .ok (base.join ⟨path⟩)
  canonical path := (tree.locate path).map pathOf

end FileTree
end LaneScript
