import LaneScript.Config.TomlText
import LaneScript.Import.Load

/-!
# Configuration files

A configuration file holds defaults for the command line, in two sections:

```
[parse]
resolve_imports = true
max_import_depth = 4
sandbox_root = "."

[output]
format = "json"
ignore_top_level = true
```

Each key may be left out, and no other key may be there.  A section may also be an array of its
values, in this order, and a format a table with its name as the only key.
-/

namespace LaneScript

/-- How results and errors are written. -/
inductive OutputFormat where
  | text | json
  deriving DecidableEq, Repr, Inhabited

/-- The format of a name. -/
def OutputFormat.ofName? : String → Option OutputFormat
  | "text" => some .text
  | "json" => some .json
  | _ => none

/-- The defaults for the command line. -/
structure Config where
  load : LoadOptions := {}
  format : OutputFormat := .text
  ignoreTopLevel : Bool := false
  deriving DecidableEq, Repr, Inhabited

/-- Why there is no configuration. -/
inductive ConfigFault where
  | unreadable (path : Path) (fault : SourceFault)
  | malformed (path : Path)
  deriving DecidableEq, Repr, Inhabited

/-- The wording of a configuration fault. -/
def ConfigFault.message : ConfigFault → String
  | .unreadable path fault => "could not read '" ++ path.text ++ "': " ++ fault.message
  | .malformed path => "could not parse '" ++ path.text ++ "': not a valid configuration"

namespace Config

/-- Sets a value of the section on parsing. -/
def setParse (config : Config) : String → Toml → Option Config
  | "resolve_imports", .bool value =>
    some { config with load := { config.load with resolveImports := value } }
  | "max_import_depth", .int value =>
    if value < 0 then none
    else some { config with load := { config.load with maxImportDepth := value.toNat } }
  | "sandbox_root", .str path =>
    some { config with load := { config.load with sandboxRoot := some ⟨path⟩ } }
  | _, _ => none

/-- The value is an array or a table with nothing in it. -/
def isBare : Toml → Bool
  | .array [] | .table _ [] => true
  | _ => false

/-- The format that a value stands for: its name, or a table with the name as its only key, which
holds nothing. -/
def formatOf? : Toml → Option OutputFormat
  | .str name => OutputFormat.ofName? name
  | .table _ [(name, value)] => if isBare value then OutputFormat.ofName? name else none
  | _ => none

/-- Sets a value of the section on output. -/
def setOutput (config : Config) : String → Toml → Option Config
  | "format", value => do return { config with format := ← formatOf? value }
  | "ignore_top_level", .bool value => some { config with ignoreTopLevel := value }
  | _, _ => none

/-- The entries of a section, which is a table, or an array of the values of the given keys. -/
def sectionEntries? (keys : List String) : Toml → Option Entries
  | .table _ entries => some entries
  | .array items => some (keys.zip items)
  | .tables members => some (keys.zip (members.map (.table .header)))
  | _ => none

/-- Sets the values of a section. -/
def setSection (config : Config) (name : String) (value : Toml) : Option Config :=
  match name with
  | "parse" => do
    let entries ←
      sectionEntries? ["resolve_imports", "max_import_depth", "sandbox_root"] value
    entries.foldlM (fun config entry => config.setParse entry.1 entry.2) config
  | "output" => do
    let entries ← sectionEntries? ["format", "ignore_top_level"] value
    entries.foldlM (fun config entry => config.setOutput entry.1 entry.2) config
  | _ => none

/-- The configuration that a text holds. -/
def ofText? (text : String) : Option Config := do
  (← tomlOf text).foldlM (fun config entry => config.setSection entry.1 entry.2) {}

/-- The configuration of a file. -/
def read {m : Type → Type} [Monad m] (provider : Provider m) (path : Path) :
    m (Except ConfigFault Config) := do
  match ← provider.read path with
  | .error fault => return .error (.unreadable path fault)
  | .ok text =>
    match ofText? text with
    | some config => return .ok config
    | none => return .error (.malformed path)

end Config
end LaneScript
