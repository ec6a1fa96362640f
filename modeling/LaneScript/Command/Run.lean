import LaneScript.Command.Arguments
import LaneScript.Text.ControlSequence

/-!
# Running the command

A subcommand loads a script and writes what it is asked for: `parse` the document, with its imports
if they are followed; `lanes` the labels of the lanes; `flat` the lanes by their labels.  Notes and
errors go to the error output, so that the output holds nothing but the result.
-/

namespace LaneScript.Command

/-- What a run of the command leaves. -/
structure Outcome where
  exit : Nat
  output : String
  errors : String
  deriving DecidableEq, Repr, Inhabited

/-! ### Notes -/

/-- How often `-v` has to be given before notes of the level appear. -/
def neededVerbosity : LaneScript.Level → Nat
  | .info => 1
  | .debug => 2
  | .trace => 3

/-- A note on a line; the further lines of its text are set in, and what a terminal would not show
is left out. -/
def noteLine (note : Note) : String :=
  let level := note.level.text
  Text.shownText ("[" ++ level ++ "".pushn ' ' (5 - level.length) ++ " " ++ note.part.text ++ "] "
    ++ String.join (note.message.toList.map fun c => if c == '\n' then "\n    " else c.toString)
    ++ "\n")

/-- The lines of the notes that appear. -/
def noteLines (verbosity : Nat) (notes : List Note) : String :=
  String.join ((notes.filter fun note => neededVerbosity note.level ≤ verbosity).map noteLine)

/-! ### Subcommands -/

/-- The name of the script that comes from the standard input. -/
def inputName : String := "<stdin>"

variable {m : Type → Type} [Monad m]

/-- The script that the command is asked for; a dash stands for the standard input. -/
def readInput (input : m (Except SourceFault String)) (file : Path) :
    m (Except ScriptError ScriptInput) := do
  if file.text == "-" then
    match ← input with
    | .ok text => return .ok (.content inputName text)
    | .error fault => return .error (.input inputName (.unreadableInput fault))
  else return .ok (.path file)

/-- How the script is loaded. -/
def loadOptions (invocation : Invocation) (config : Config) : LoadOptions :=
  match invocation.subcommand with
  | .parse =>
    { resolveImports := config.load.resolveImports || invocation.imports
      maxImportDepth := invocation.maxImportDepth.getD config.load.maxImportDepth
      sandboxRoot := invocation.sandboxRoot.or config.load.sandboxRoot }
  | _ => {}

/-- The result of a subcommand, and the notes on it. -/
def result (invocation : Invocation) (config : Config) (format : OutputFormat)
    (script : LoadedScript) : String × List Note :=
  match invocation.subcommand with
  | .parse =>
    if (loadOptions invocation config).resolveImports then
      (script.toJson.pretty ++ "\n", [.importsResolved script.name script.imports.length])
    else (script.document.toJson.pretty ++ "\n", [])
  | .lanes =>
    let lanes := script.document.lanes
    match format with
    | .json => ((Json.ofStrings lanes).pretty ++ "\n", [])
    | .text => (String.join (lanes.map (· ++ "\n")), [])
  | .flat =>
    let entries :=
      script.document.flatten (invocation.ignoreTopLevel || config.ignoreTopLevel)
    ((Json.obj (entries.entries.map fun (label, entry) => (label, entry.toJson))).pretty ++ "\n",
      [])

/-- An error as the command reports it. -/
def errorText (format : OutputFormat) (quiet : Bool) (error : ScriptError) : String :=
  match format with
  | .json => error.toJson.pretty ++ "\n"
  | .text => if quiet then "" else "error: " ++ error.message ++ "\n"

/-- Runs a subcommand with its configuration. -/
def runWith (provider : Provider m) (input : m (Except SourceFault String))
    (invocation : Invocation) (config : Config) (notes : List Note) : m Outcome := do
  let format := invocation.output.getD config.format
  let failed (error : ScriptError) (notes : List Note) : Outcome :=
    ⟨1, "", noteLines invocation.verbosity notes ++ errorText format invocation.quiet error⟩
  match ← readInput input invocation.file with
  | .error error => return failed error notes
  | .ok script =>
    let notes := notes ++ [.loading script.name]
    let (loaded, journal) ← load script (loadOptions invocation config) provider
    let notes := notes ++ journal.notes
    match loaded with
    | .error error => return failed error notes
    | .ok script =>
      let (output, further) := result invocation config format script
      return ⟨0, output, noteLines invocation.verbosity (notes ++ further)⟩

/-- Runs a subcommand. -/
def runInvocation (provider : Provider m) (input : m (Except SourceFault String))
    (invocation : Invocation) : m Outcome := do
  match invocation.config with
  | none => runWith provider input invocation {} []
  | some path =>
    match ← Config.read provider path with
    | .error fault => return ⟨1, "", "error: " ++ fault.message ++ "\n"⟩
    | .ok config => runWith provider input invocation config [.configLoaded path.text]

/-! ### The command -/

/-- The name and version of the command. -/
def versionText : String := "lanefile 0.1.0\n"

/-- A short description of the arguments. -/
def usageText : String :=
  "Usage: lanefile [--output text|json] [--quiet] [-v]... [--config FILE] COMMAND\n\n"
    ++ "Commands:\n"
    ++ "  parse [--imports] [--sandbox-root DIR] [--max-import-depth N] FILE\n"
    ++ "  lanes FILE\n"
    ++ "  flat [--ignore-top-level] FILE\n"

/-- Runs the command.  Arguments that are not understood give the exit status 2. -/
def run (provider : Provider m) (input : m (Except SourceFault String)) (args : List String) :
    m Outcome :=
  match readArguments args with
  | .ok invocation => runInvocation provider input invocation
  | .error .version => return ⟨0, versionText, ""⟩
  | .error .help => return ⟨0, usageText, ""⟩
  | .error .misuse => return ⟨2, "", usageText⟩

end LaneScript.Command
