import LaneScript.Config.Basic

/-!
# The arguments of the command

The command has three subcommands, `parse`, `lanes` and `flat`, each for one script.  Some flags
hold for all of them and may stand before or behind the name of the subcommand, where a flag behind
it has the last word.  The arguments are read from left to right, and the first thing that ends the
reading counts: a fault, or a request for the version or for help.
-/

namespace LaneScript.Command

/-- A flag of the command or of a subcommand. -/
inductive Flag where
  | output | quiet | verbose | config
  | imports | sandboxRoot | maxImportDepth
  | ignoreTopLevel
  | help | version
  deriving DecidableEq, Repr, Inhabited

namespace Flag

/-- The name of a flag behind two dashes. -/
def long : Flag → String
  | .output => "output" | .quiet => "quiet" | .verbose => "verbose" | .config => "config"
  | .imports => "imports" | .sandboxRoot => "sandbox-root"
  | .maxImportDepth => "max-import-depth" | .ignoreTopLevel => "ignore-top-level"
  | .help => "help" | .version => "version"

/-- The letter of a flag behind one dash. -/
def short? : Flag → Option Char
  | .verbose => some 'v'
  | .help => some 'h'
  | .version => some 'V'
  | _ => none

/-- The flag has a value. -/
def takesValue : Flag → Bool
  | .output | .config | .sandboxRoot | .maxImportDepth => true
  | _ => false

/-- The flag may be given more than once. -/
def isCounted : Flag → Bool
  | .verbose => true
  | _ => false

end Flag

/-- A natural number of 64 bits, as an argument gives it. -/
def natural? (text : String) : Option Nat :=
  let digits := match text.toList with
    | '+' :: rest => rest
    | digits => digits
  if digits.isEmpty || digits.any (!·.isDigit) then none
  else
    let value := Number.ofDigits 10 digits
    if value < Nat.pow 2 64 then some value else none

/-- The value is one that the flag can have. -/
def Flag.accepts : Flag → String → Bool
  | .output, value => (OutputFormat.ofName? value).isSome
  | .config, value | .sandboxRoot, value => !value.isEmpty
  | .maxImportDepth, value => (natural? value).isSome
  | _, _ => true

/-- A subcommand. -/
inductive Subcommand where
  | parse | lanes | flat
  deriving DecidableEq, Repr, Inhabited

/-- The subcommand of a name. -/
def Subcommand.ofName? : String → Option Subcommand
  | "parse" => some .parse
  | "lanes" => some .lanes
  | "flat" => some .flat
  | _ => none

/-- The flags that hold for all subcommands. -/
def sharedFlags : List Flag := [.output, .quiet, .verbose, .config, .help]

/-- The flags of the command, or of a subcommand. -/
def flagsOf : Option Subcommand → List Flag
  | none => .version :: sharedFlags
  | some .parse => [.imports, .sandboxRoot, .maxImportDepth] ++ sharedFlags
  | some .lanes => sharedFlags
  | some .flat => .ignoreTopLevel :: sharedFlags

/-- What ends the reading of the arguments early. -/
inductive Stop where
  /-- The arguments are not those of the command. -/
  | misuse
  | help
  | version
  deriving DecidableEq, Repr, Inhabited

/-- The flags and operands that stand on one level: before the name of the subcommand, or behind
it. -/
structure Level where
  flags : List (Flag × String) := []
  operands : List String := []
  deriving DecidableEq, Repr, Inhabited

namespace Level

/-- Adds a flag with its value. -/
def addFlag (level : Level) (flag : Flag) (value : String) : Except Stop Level :=
  match flag with
  | .help => .error .help
  | .version => .error .version
  | flag =>
    if !flag.accepts value || (!flag.isCounted && level.flags.any (·.1 == flag)) then
      .error .misuse
    else .ok { level with flags := level.flags ++ [(flag, value)] }

/-- Adds an operand, of which there is one at the most, and none without a text. -/
def addOperand (level : Level) (operand : String) : Except Stop Level :=
  if operand.isEmpty || !level.operands.isEmpty then .error .misuse
  else .ok { level with operands := [operand] }

/-- The value of a flag. -/
def value? (level : Level) (flag : Flag) : Option String := level.flags.lookup flag

/-- How often a flag is given. -/
def count (level : Level) (flag : Flag) : Nat := level.flags.countP (·.1 == flag)

/-- Adds the flags of a cluster of letters, none of which has a value. -/
def addShort (allowed : List Flag) (level : Level) : List Char → Except Stop Level
  | [] => .ok level
  | letter :: letters =>
    match allowed.find? (·.short? == some letter) with
    | some flag => do addShort allowed (← level.addFlag flag "") letters
    | none => .error .misuse

end Level

/-- An argument that starts with a dash and is more than that. -/
def isDashed (arg : String) : Bool := arg.toList.head? == some '-' && arg != "-"

/-- The name of a long flag and the value behind its equals sign, if there is one. -/
def splitFlag (arg : String) : String × Option String :=
  let text := arg.toList.drop 2
  let name := text.takeWhile (· != '=')
  (String.ofList name,
    if name.length < text.length then some (String.ofList (text.drop (name.length + 1))) else none)

/-- Reads the arguments of one level.  The command itself has no operands: the first one names the
subcommand, and the reading ends there. -/
def readLevel (command : Option Subcommand) (level : Level) :
    List String → Except Stop (Level × List String)
  | [] => .ok (level, [])
  | arg :: others =>
    if arg == "--" then
      match command with
      | none => if others.isEmpty then .ok (level, []) else .error .misuse
      | some _ => do return (← others.foldlM Level.addOperand level, [])
    else if !isDashed arg then
      match command with
      | none => .ok (level, arg :: others)
      | some _ => do readLevel command (← level.addOperand arg) others
    else if arg.toList.take 2 == ['-', '-'] then
      let (name, attached) := splitFlag arg
      match (flagsOf command).find? (·.long == name), attached with
      | none, _ => .error .misuse
      | some flag, some value =>
        if flag.takesValue then do readLevel command (← level.addFlag flag value) others
        else .error .misuse
      | some flag, none =>
        if !flag.takesValue then do readLevel command (← level.addFlag flag "") others
        else match others with
          | [] => .error .misuse
          | value :: others =>
            if isDashed value then .error .misuse
            else do readLevel command (← level.addFlag flag value) others
    else do readLevel command (← level.addShort (flagsOf command) (arg.toList.drop 1)) others

/-- What the command is asked to do. -/
structure Invocation where
  subcommand : Subcommand
  file : Path
  /-- The format of the output, where it is not left to the configuration. -/
  output : Option OutputFormat
  quiet : Bool
  verbosity : Nat
  config : Option Path
  imports : Bool
  sandboxRoot : Option Path
  maxImportDepth : Option Nat
  ignoreTopLevel : Bool
  deriving DecidableEq, Repr, Inhabited

/-- The invocation of a subcommand from the flags before its name and behind it. -/
def Invocation.ofLevels (subcommand : Subcommand) (outer inner : Level) (file : String) :
    Invocation :=
  let value? (flag : Flag) : Option String := (inner.value? flag).or (outer.value? flag)
  { subcommand
    file := ⟨file⟩
    output := (value? .output).bind OutputFormat.ofName?
    quiet := (value? .quiet).isSome
    verbosity := if inner.count .verbose = 0 then outer.count .verbose else inner.count .verbose
    config := (value? .config).map Path.mk
    imports := (value? .imports).isSome
    sandboxRoot := (value? .sandboxRoot).map Path.mk
    maxImportDepth := (value? .maxImportDepth).bind natural?
    ignoreTopLevel := (value? .ignoreTopLevel).isSome }

/-- The arguments behind the name `help`: nothing, or one name of which help is asked for. -/
def readHelp : List String → Stop
  | [] | ["help"] => .help
  | [name] => if (Subcommand.ofName? name).isSome then .help else .misuse
  | _ => .misuse

/-- Reads the arguments of the command. -/
def readArguments (args : List String) : Except Stop Invocation := do
  match ← readLevel none {} args with
  | (_, []) => throw .misuse
  | (outer, name :: others) =>
    match Subcommand.ofName? name with
    | some subcommand =>
      let (inner, _) ← readLevel (some subcommand) {} others
      match inner.operands with
      | [file] => return .ofLevels subcommand outer inner file
      | _ => throw .misuse
    | none => throw (if name == "help" then readHelp others else .misuse)

end LaneScript.Command
