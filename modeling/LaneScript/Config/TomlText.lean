import LaneScript.Config.Scalar

/-!
# The text of a TOML file

A TOML file is read line by line: a line holds a header, a key and its value, a comment or nothing.

Arrays and tables in braces stand inside of each other to a fixed depth, on which the recursion for
values runs.  The loops run on a bound, and the length of the text is enough.
-/

namespace LaneScript.Config
namespace Scanner

/-! ### Keys -/

/-- The characters of a key without quotes. -/
def isKeyChar (c : Char) : Bool := c.isAlphanum || c == '_' || c == '-'

/-- One part of a key. -/
def keyPart : Scanner String := do
  match ← next? with
  | some '"' => shortString '"'
  | some '\'' => shortString '\''
  | _ =>
    let text ← takeClass isKeyChar
    if text.isEmpty then failure else return String.ofList text

/-- The further parts of a dotted key; `bound` is a bound on them. -/
def keyParts : Nat → Scanner (List String)
  | 0 => return []
  | bound + 1 => do
    skipBlanks
    if ← takes "." then
      skipBlanks
      let part ← keyPart
      return part :: (← keyParts bound)
    else return []

/-- How many parts a key can have, and how many arrays and tables can be open at once. -/
def deepest : Nat := 79

/-- A key with all its parts. -/
def key : Scanner (List String) := do
  let first ← keyPart
  let others ← keyParts (← get).length
  if deepest ≤ others.length then failure
  return first :: others

/-! ### Values -/

/-- A key and its value put into a table. -/
def put (path : List String) (value : Toml) (entries : Entries) : Option Entries := do
  entries.assign path.dropLast (← path.getLast?) value

/-- The items of an array, with its closing bracket; `bound` is a bound on them and on the lines
between them. -/
def items (item : Scanner Toml) : Nat → Scanner (List Toml)
  | 0 => failure
  | bound + 1 => do
    skipLines (bound + 1)
    if ← takes "]" then return []
    let found ← item
    skipLines bound
    if ← takes "," then return found :: (← items item bound)
    take "]"
    return [found]

/-- The entries of a table in braces, with its closing brace; `bound` is a bound on them. -/
def pairs (item : Scanner Toml) : Nat → Entries → Scanner Entries
  | 0, _ => failure
  | bound + 1, entries => do
    skipBlanks
    let path ← key
    skipBlanks
    take "="
    skipBlanks
    let found ← item
    let entries ← put path found entries
    skipBlanks
    if ← takes "," then pairs item bound entries
    else
      take "\x7d"
      return entries

/-- A value, in which arrays and tables stand inside of each other to the given depth. -/
def value : Nat → Scanner Toml
  | 0 => scalar
  | depth + 1 => do
    if ← takes "[" then return .array (← items (value depth) ((← get).length + 1))
    else if ← takes "\x7b" then
      skipBlanks
      if ← takes "\x7d" then return .table .inline []
      else return .table .inline (← pairs (value depth) ((← get).length + 1) [])
    else scalar

/-! ### Lines -/

/-- A header between its brackets: the last part of its path names the table that it opens, in the
table that the other parts lead to. -/
def header (opening closing : String) (create : String → Entries → Option Entries)
    (entries : Entries) : Scanner (List String × Entries) := do
  take opening
  skipBlanks
  let path ← key
  skipBlanks
  take closing
  restOfLine
  return (path, ← entries.within (create (← path.getLast?)) path.dropLast)

/-- One line: it changes the table, and a header changes the path of the one that is open. -/
def line (current : List String) (entries : Entries) : Scanner (List String × Entries) := do
  skipBlanks
  match ← get with
  | [] | '#' :: _ | '\n' :: _ | '\r' :: _ =>
    restOfLine
    return (current, entries)
  | '[' :: '[' :: _ => header "[[" "]]" Entries.addTable entries
  | '[' :: _ => header "[" "]" Entries.openTable entries
  | _ =>
    let path ← key
    skipBlanks
    take "="
    skipBlanks
    let found ← value deepest
    restOfLine
    return (current, ← entries.within (put path found) current)

/-- All lines; `bound` is a bound on their number. -/
def lines : Nat → List String → Entries → Scanner Entries
  | 0, _, entries => return entries
  | bound + 1, current, entries => do
    if (← get).isEmpty then return entries
    let (current, entries) ← line current entries
    lines bound current entries

end Scanner

/-- The table of a TOML file, which may start with a byte order mark. -/
def tomlOf (text : String) : Option Entries :=
  let chars := match text.toList with
    | '\ufeff' :: rest => rest
    | chars => chars
  ((Scanner.lines (chars.length + 1) [] []).run' chars)

end LaneScript.Config
