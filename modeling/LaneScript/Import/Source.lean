import LaneScript.Import.Path
import LaneScript.OrderedMap

/-!
# Where scripts come from

A provider reads scripts and knows their paths.  It works in a monad, so that the same loader reads
from a disk, or from scripts that are held in memory.
-/

namespace LaneScript

/-- Why a script cannot be read or its path not be found. -/
inductive SourceFault where
  /-- No script is held under the path. -/
  | noScript (path : Path)
  | noSuchFile
  | notADirectory
  | isADirectory
  | nameTooLong
  | nulInName
  /-- The bytes are no UTF-8. -/
  | undecodable
  /-- Any other failure of the system, in its own words. -/
  | other (message : String)
  deriving DecidableEq, Repr, Inhabited

/-- The wording of a fault. -/
def SourceFault.message : SourceFault → String
  | .noScript path => "no script at " ++ path.text
  | .noSuchFile => "No such file or directory (os error 2)"
  | .notADirectory => "Not a directory (os error 20)"
  | .isADirectory => "Is a directory (os error 21)"
  | .nameTooLong => "File name too long (os error 36)"
  | .nulInName => "file name contained an unexpected NUL byte"
  | .undecodable => "stream did not contain valid UTF-8"
  | .other message => message

/-- A source of scripts. -/
structure Provider (m : Type → Type) where
  /-- The text of a script. -/
  read : Path → m (Except SourceFault String)
  /-- The path that a script in the given directory means by an import. -/
  resolve : Path → String → m (Except SourceFault Path)
  /-- The one path among all that lead to the same script. -/
  canonical : Path → m (Except SourceFault Path)

/-! ### Scripts in memory -/

/-- Scripts that are held in memory, by their paths without dots. -/
structure ScriptStore where
  scripts : OrderedMap Path String
  deriving DecidableEq, Inhabited

namespace ScriptStore

/-- The store without scripts. -/
def empty : ScriptStore := ⟨.empty⟩

/-- Adds a script, or replaces the one with the same path. -/
def insert (store : ScriptStore) (path : Path) (text : String) : ScriptStore :=
  ⟨store.scripts.insert path.normalize text⟩

/-- The store of some scripts, of which the last one of a path holds. -/
def ofList (scripts : List (Path × String)) : ScriptStore :=
  scripts.foldl (fun store script => store.insert script.1 script.2) empty

/-- The text of a script. -/
def read (store : ScriptStore) (path : Path) : Except SourceFault String :=
  match store.scripts.get? path.normalize with
  | some text => .ok text
  | none => .error (.noScript path.normalize)

/-- The path that a script in the given directory means by an import. -/
def resolve (base : Path) (path : String) : Path := (base.join ⟨path⟩).normalize

/-- The path of a script, or of a directory with a script in it. -/
def canonical (store : ScriptStore) (path : Path) : Except SourceFault Path :=
  if store.scripts.keys.any (·.isInside path.normalize) then .ok path.normalize
  else .error (.noScript path.normalize)

/-- The store as a source of scripts. -/
def provider (store : ScriptStore) : Provider Id where
  read := store.read
  resolve base path := .ok (resolve base path)
  canonical := store.canonical

end ScriptStore
end LaneScript
