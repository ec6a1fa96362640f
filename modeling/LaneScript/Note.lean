import LaneScript.Document.Value
import LaneScript.Tree.Describe

/-!
# Notes

What is noted while a script is loaded and is no error: which scripts are read, and where the
document says less than the script.  A note has a level, the part of the program that takes it, and
a text.
-/

namespace LaneScript

/-- How much a note matters. -/
inductive Level where
  | info | debug | trace
  deriving DecidableEq, Repr, Inhabited

/-- The name of a level. -/
def Level.text : Level → String
  | .info => "INFO" | .debug => "DEBUG" | .trace => "TRACE"

/-- The part of the program that takes a note. -/
inductive Part where
  | loader | builder | params | commands | parseCommand | config
  deriving DecidableEq, Repr, Inhabited

/-- The name under which the notes of a part appear. -/
def Part.text : Part → String
  | .loader => "lanefile_core::loader"
  | .builder => "lanefile_core::builder"
  | .params => "lanefile_core::params"
  | .commands => "lanefile::commands"
  | .parseCommand => "lanefile::commands::parse"
  | .config => "lanefile::config"

/-- Something worth noting. -/
inductive Note where
  -- of a script that is loaded
  | statements (script : String) (count : Nat)
  | importing (name : String) (script : String) (line : Nat)
  | alreadyImported (path : String)
  -- of a document that is built
  | entersPlatform (line : Nat) (name : String)
  | entersLane (name : String) (isPrivate : Bool)
  | emptyDescription (line : Nat)
  | keptAsCode (line : Nat)
  | droppedDescriptions (count : Nat)
  -- of parameters that are decoded
  /-- An argument among keyword arguments that is no pair. -/
  | skippedEntry (line : Nat) (form : Form)
  /-- A key that is neither a symbol nor a string. -/
  | skippedKey (line : Nat) (form : Form)
  /-- An expression that is reduced to a part of it. -/
  | reduced (line : Nat) (value : Value)
  -- of a command
  | configLoaded (path : String)
  | loading (name : String)
  | importsResolved (name : String) (count : Nat)

namespace Note

/-- The level of a note. -/
def level : Note → Level
  | .importing _ _ _ | .alreadyImported _ | .importsResolved _ _ => .info
  | .statements _ _ | .entersPlatform _ _ | .entersLane _ _ => .trace
  | .emptyDescription _ | .keptAsCode _ | .droppedDescriptions _ | .skippedEntry _ _
  | .skippedKey _ _ | .reduced _ _ | .configLoaded _ | .loading _ => .debug

/-- The part of the program that takes the note. -/
def part : Note → Part
  | .statements _ _ | .importing _ _ _ | .alreadyImported _ => .loader
  | .entersPlatform _ _ | .entersLane _ _ | .emptyDescription _ | .keptAsCode _
  | .droppedDescriptions _ => .builder
  | .skippedEntry _ _ | .skippedKey _ _ | .reduced _ _ => .params
  | .configLoaded _ => .config
  | .loading _ => .commands
  | .importsResolved _ _ => .parseCommand

/-- A text about a line. -/
def onLine (line : Nat) (text : String) : String := "line " ++ toString line ++ ": " ++ text

/-- The text of a note. -/
def message : Note → String
  | .statements script count => script ++ ": " ++ toString count ++ " top-level statement(s)"
  | .importing name script line =>
    "importing " ++ name ++ " (" ++ script ++ ":" ++ toString line ++ ")"
  | .alreadyImported path => path ++ " already imported, skipping"
  | .entersPlatform line name => onLine line ("entering platform '" ++ name ++ "'")
  | .entersLane name isPrivate =>
    "entering " ++ (if isPrivate then "private " else "") ++ "lane '" ++ name ++ "'"
  | .emptyDescription line => onLine line "empty desc ignored"
  | .keptAsCode line => onLine line "keeping unrecognized statement as advanced code"
  | .droppedDescriptions count =>
    "dropping " ++ toString count ++ " description(s) not followed by a lane"
  | .skippedEntry line form =>
    onLine line ("skipping non-pair keyword argument " ++ form.describe)
  | .skippedKey line form =>
    onLine line ("skipping parameter with non-literal key " ++ form.describe)
  | .reduced line value =>
    onLine line ("non-literal parameter decoded shallowly as " ++ value.describe)
  | .configLoaded path => "loaded config from " ++ path
  | .loading name => "loading " ++ name
  | .importsResolved name count => name ++ ": " ++ toString count ++ " import(s) resolved"

end Note
end LaneScript
