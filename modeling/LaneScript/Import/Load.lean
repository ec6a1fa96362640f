import LaneScript.Document.Json
import LaneScript.Document.Notes
import LaneScript.Grammar.Parse
import LaneScript.ScriptError

/-!
# Loading a script with its imports

A script is read, parsed and built; then, if imports are to be followed, the scripts it asks for
are loaded in the order of the source, each with its own imports before the next one.

* A script is never read unless its canonical path lies inside of the sandbox root.
* A script that is still being loaded must not be asked for again, and one that has been loaded is
  not loaded twice.
* The scripts on the way to an import are never more than the limit allows, which is what the
  recursion runs on.

What happens on the way is kept in a journal, which an error does not undo.
-/

namespace LaneScript

/-- How a script is loaded. -/
structure LoadOptions where
  resolveImports : Bool := false
  maxImportDepth : Nat := 8
  /-- The directory that imports have to stay in; without one, that of the script. -/
  sandboxRoot : Option Path := none
  deriving DecidableEq, Repr, Inhabited

/-- A script by its path, or as a text with a name for messages. -/
inductive ScriptInput where
  | path (path : Path)
  | content (name text : String)
  deriving DecidableEq, Repr, Inhabited

namespace ScriptInput

/-- The name of a text that has none. -/
def contentName : String := "<content>"

/-- The input of a path or of a text, of which exactly one has to be given. -/
def ofOptions (path : Option Path) (content : Option String) : Except ScriptError ScriptInput :=
  match path, content with
  | some file, none => .ok (.path file)
  | none, some text => .ok (.content contentName text)
  | some file, some _ => .error (.input file.text .bothGiven)
  | none, none => .error (.input contentName .noneGiven)

/-- The name of the script in messages. -/
def name : ScriptInput → String
  | .path file => file.text
  | .content name _ => name

end ScriptInput

/-- A script that has been imported, and the line on which it was asked for. -/
structure ImportedScript where
  path : Path
  line : Nat
  document : Document
  deriving DecidableEq, Inhabited

/-- A loaded script. -/
structure LoadedScript where
  name : String
  document : Document
  /-- The imports, each before its own ones, in the order of the source. -/
  imports : List ImportedScript
  deriving DecidableEq, Inhabited

/-- What has happened while a script is loaded. -/
structure Journal where
  notes : List Note := []
  /-- The paths that were read to follow imports. -/
  reads : List Path := []
  imported : List ImportedScript := []
  /-- The canonical paths of the scripts that are loaded with all their imports. -/
  finished : List Path := []

/-- Loads something, and keeps the journal also when it fails. -/
abbrev Loader (m : Type → Type) := ExceptT ScriptError (StateT Journal m)

variable {m : Type → Type} [Monad m]

namespace Loader

/-- Adds notes to the journal. -/
def note (notes : List Note) : Loader m Unit :=
  modify fun journal => { journal with notes := journal.notes ++ notes }

/-- What a provider answers, or the error of its fault. -/
def ask {α : Type} (error : SourceFault → ScriptError) (answer : m (Except SourceFault α)) :
    Loader m α := do
  match ← answer with
  | .ok value => return value
  | .error fault => throw (error fault)

/-- Parses and builds a text. -/
def buildText (name text : String) : Loader m Built := do
  match parseText name text with
  | .ok script =>
    note (.statements name script.length :: buildNotes script)
    return build script
  | .error failure => throw (.malformed failure)

end Loader

open Loader

/-- The rules that all imports of a script follow. -/
structure ImportRules (m : Type → Type) where
  provider : Provider m
  sandboxRoot : Path
  maxDepth : Nat

/-- The script that asks for imports: its name in messages, its directory, and the canonical paths
of the scripts that led to it, itself the last. -/
structure ImportSite where
  script : String
  directory : Path
  stack : List Path

namespace ImportRules

variable (rules : ImportRules m)

/-- The path of an import and its canonical form, which lies inside of the sandbox and is not being
loaded. -/
def locate (site : ImportSite) (request : ImportRequest) : Loader m (Path × Path) := do
  let error := ScriptError.importing site.script request.line request.path
  let path ← ask (error ∘ .unresolved) (rules.provider.resolve site.directory request.path)
  let canonical ← ask (error ∘ .unresolved) (rules.provider.canonical path)
  if !canonical.isInside rules.sandboxRoot then throw (error (.escapesSandbox rules.sandboxRoot))
  if site.stack.any canonical.same then
    throw (error (.cycle ((site.stack ++ [canonical]).map Path.shortName)))
  return (path, canonical)

/-- Loads one import, whose own imports `descend` follows. -/
def load (descend : ImportSite → List ImportRequest → Loader m Unit) (site : ImportSite)
    (request : ImportRequest) (path canonical : Path) : Loader m Unit := do
  modify fun journal => { journal with reads := journal.reads ++ [path] }
  let text ← ask (ScriptError.importing site.script request.line request.path ∘ .unreadable)
    (rules.provider.read path)
  note [.importing path.text site.script request.line]
  let built ← buildText path.text text
  modify fun journal =>
    { journal with imported := journal.imported ++ [⟨canonical, request.line, built.document⟩] }
  descend ⟨path.text, canonical.parent?.getD ⟨"."⟩, site.stack ++ [canonical]⟩ built.requests
  modify fun journal => { journal with finished := journal.finished ++ [canonical] }

/-- Follows the imports of a script; without `descend` no further script may be loaded. -/
def followWith (descend : Option (ImportSite → List ImportRequest → Loader m Unit))
    (site : ImportSite) : List ImportRequest → Loader m Unit
  | [] => return ()
  | request :: others => do
    let (path, canonical) ← rules.locate site request
    if (← get).finished.any canonical.same then note [.alreadyImported canonical.text]
    else match descend with
      | some descend => rules.load descend site request path canonical
      | none =>
        throw (.importing site.script request.line request.path (.tooDeep rules.maxDepth))
    followWith descend site others

/-- Follows the imports of a script, of which at most the given number may lead to one another. -/
def follow : Nat → ImportSite → List ImportRequest → Loader m Unit
  | 0 => rules.followWith none
  | depth + 1 => rules.followWith (some (follow depth))

end ImportRules

/-- The text of an input, and its path if it has one. -/
def ScriptInput.read (provider : Provider m) : ScriptInput → Loader m (String × Option Path)
  | .path file => do
    let text ← ask (ScriptError.input file.text ∘ .unreadable) (provider.read file)
    return (text, some file)
  | .content _ text => return (text, none)

/-- Follows the imports of the script that all began with.  A text stands in the working
directory. -/
def followImports (options : LoadOptions) (provider : Provider m) (name : String)
    (origin : Option Path) (requests : List ImportRequest) : Loader m Unit := do
  let root ← ask (ScriptError.input name ∘ .unresolvedScript)
    (provider.canonical (origin.getD ⟨"."⟩))
  let directory := if origin.isSome then root.parent?.getD ⟨"."⟩ else root
  let sandboxRoot ← match options.sandboxRoot with
    | some path => ask (ScriptError.input path.text ∘ .unresolvedSandbox) (provider.canonical path)
    | none => pure directory
  let rules : ImportRules m := ⟨provider, sandboxRoot, options.maxImportDepth⟩
  rules.follow options.maxImportDepth ⟨name, directory, if origin.isSome then [root] else []⟩
    requests

/-- Loads a script, and its imports if the options ask for them. -/
def loadScript (input : ScriptInput) (options : LoadOptions) (provider : Provider m) :
    Loader m LoadedScript := do
  let (text, origin) ← input.read provider
  let built ← buildText input.name text
  if options.resolveImports && !built.requests.isEmpty then
    followImports options provider input.name origin built.requests
  return ⟨input.name, built.document, (← get).imported⟩

/-- Loads a script from an empty journal. -/
def load (input : ScriptInput) (options : LoadOptions) (provider : Provider m) :
    m (Except ScriptError LoadedScript × Journal) :=
  ((loadScript input options provider).run).run {}

/-- The document of a text, whose imports are not followed. -/
def parseDocument (name text : String) : Except ScriptError Document :=
  match parseText name text with
  | .ok script => .ok (build script).document
  | .error failure => .error (.malformed failure)

/-- An imported script in JSON. -/
def ImportedScript.toJson (script : ImportedScript) : Json :=
  .obj [("path", .str script.path.text), ("line", .int script.line),
    ("document", script.document.toJson)]

/-- A loaded script in JSON, with its imports. -/
def LoadedScript.toJson (script : LoadedScript) : Json :=
  .obj [("document", script.document.toJson),
    ("imports", .arr (script.imports.map ImportedScript.toJson))]

end LaneScript
