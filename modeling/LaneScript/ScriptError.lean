import LaneScript.Fault
import LaneScript.Import.Source
import LaneScript.Json.Basic

/-!
# Why a script cannot be loaded

A script cannot be read, is no script, or imports another one that cannot be.  Each of these ends
the loading: there is no document beside an error.
-/

namespace LaneScript

/-- Why there is no text to read as a script. -/
inductive InputFault where
  /-- A path and a text are both given. -/
  | bothGiven
  | noneGiven
  | unreadable (fault : SourceFault)
  | unreadableInput (fault : SourceFault)
  /-- The path of a script that imports others cannot be found. -/
  | unresolvedScript (fault : SourceFault)
  | unresolvedSandbox (fault : SourceFault)
  deriving DecidableEq, Repr, Inhabited

/-- The wording of an input fault. -/
def InputFault.message : InputFault → String
  | .bothGiven => "pass either a script path or script content, not both"
  | .noneGiven => "a script path or script content is required"
  | .unreadable fault => "cannot read script: " ++ fault.message
  | .unreadableInput fault => "cannot read stdin: " ++ fault.message
  | .unresolvedScript fault => "cannot resolve script path: " ++ fault.message
  | .unresolvedSandbox fault => "cannot resolve sandbox root: " ++ fault.message

/-- Why an import cannot be followed. -/
inductive ImportFault where
  | unresolved (fault : SourceFault)
  | unreadable (fault : SourceFault)
  /-- The script lies outside of the directory that imports have to stay in. -/
  | escapesSandbox (root : Path)
  /-- The script imports itself; these are the short names of the scripts on the way. -/
  | cycle (names : List String)
  | tooDeep (limit : Nat)
  deriving DecidableEq, Repr, Inhabited

/-- The wording of an import fault. -/
def ImportFault.message : ImportFault → String
  | .unresolved fault => "cannot resolve path: " ++ fault.message
  | .unreadable fault => "cannot read file: " ++ fault.message
  | .escapesSandbox root => "escapes the sandbox root " ++ root.text
  | .cycle names => "import cycle detected: " ++ " → ".intercalate names
  | .tooDeep limit => "import depth exceeds the limit of " ++ toString limit

/-- Why a script cannot be loaded. -/
inductive ScriptError where
  /-- There is no text to read. -/
  | input (path : String) (fault : InputFault)
  /-- The text is no script. -/
  | malformed (failure : Failure)
  /-- A script that the file asks for cannot be imported. -/
  | importing (file : String) (line : Nat) (path : String) (fault : ImportFault)
  deriving DecidableEq, Repr, Inhabited

namespace ScriptError

/-- The kind of an error, for programs. -/
def kind : ScriptError → String
  | .input _ _ => "input"
  | .malformed _ => "syntax"
  | .importing _ _ _ _ => "import"

/-- The file that an error is about. -/
def file : ScriptError → String
  | .input path _ => path
  | .malformed failure => failure.file
  | .importing file _ _ _ => file

/-- The line that an error is about. -/
def line? : ScriptError → Option Nat
  | .input _ _ => none
  | .malformed failure => some failure.line
  | .importing _ line _ _ => some line

/-- The import that an error is about. -/
def importPath? : ScriptError → Option String
  | .importing _ _ path _ => some path
  | _ => none

/-- What is wrong, without the place. -/
def reason : ScriptError → String
  | .input _ fault => fault.message
  | .malformed failure => failure.fault.message
  | .importing _ _ _ fault => fault.message

/-- The place and what is wrong there. -/
def message : ScriptError → String
  | .input path fault => path ++ ": " ++ fault.message
  | .malformed failure =>
    failure.file ++ ":" ++ toString failure.line ++ ": syntax error: " ++ failure.fault.message
  | .importing file line path fault =>
    file ++ ":" ++ toString line ++ ": import '" ++ path ++ "' failed: " ++ fault.message

/-- An error in JSON; what does not apply is null. -/
def toJson (error : ScriptError) : Json :=
  .obj [("file", .str error.file),
    ("import", (error.importPath?.map Json.str).getD .null),
    ("kind", .str error.kind),
    ("line", (error.line?.map fun line => Json.int line).getD .null),
    ("message", .str error.reason)]

end ScriptError
end LaneScript
