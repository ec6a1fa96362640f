import LaneScript.Number.Written
import LaneScript.OrderedMap
import LaneScript.Text.Quoted

/-!
# JSON

Values of the JSON format and their two written forms: the compact one without blanks, and the
indented one with one entry or item on a line.  An object keeps its entries in order, and may hold
two entries of one key; `merged` leaves one, with the place of the first and the value of the last.
-/

namespace LaneScript

open Number (Binary64 Style)
open Text (hexadecimal)

/-- A value of the JSON format. -/
inductive Json where
  | null
  | bool (value : Bool)
  | int (value : Int)
  | float (value : Binary64)
  | str (content : String)
  | arr (items : List Json)
  | obj (entries : List (String × Json))

namespace Json

/-! ### Scalars -/

/-- A character inside the quotes of a JSON string. -/
def stringChar (c : Char) : String :=
  if c == '"' then "\\\""
  else if c == '\\' then "\\\\"
  else if c == '\x08' then "\\b"
  else if c == '\x0c' then "\\f"
  else if c == '\n' then "\\n"
  else if c == '\r' then "\\r"
  else if c == '\t' then "\\t"
  else if c.toNat < 0x10 then "\\u000" ++ hexadecimal c.toNat
  else if c.toNat < 0x20 then "\\u00" ++ hexadecimal c.toNat
  else c.toString

/-- A JSON string with its quotes. -/
def stringText (content : String) : String :=
  "\"" ++ String.join (content.toList.map stringChar) ++ "\""

/-- A number as JSON writes it; an infinity, for which JSON has no form, is null. -/
def floatText : Binary64 → String
  | .infinite _ => "null"
  | x => Style.json.text x

/-- A truth value as JSON writes it. -/
def boolText (value : Bool) : String := if value then "true" else "false"

/-! ### The compact form -/

mutual

/-- The value without blanks. -/
def compact : Json → String
  | .null => "null"
  | .bool value => boolText value
  | .int value => toString value
  | .float value => floatText value
  | .str content => stringText content
  | .arr items => "[" ++ ",".intercalate (compactItems items) ++ "]"
  | .obj entries => "\x7b" ++ ",".intercalate (compactEntries entries) ++ "\x7d"

/-- The items of an array without blanks. -/
def compactItems : List Json → List String
  | [] => []
  | item :: items => item.compact :: compactItems items

/-- The entries of an object without blanks. -/
def compactEntries : List (String × Json) → List String
  | [] => []
  | (key, value) :: entries =>
    (stringText key ++ ":" ++ value.compact) :: compactEntries entries

end

/-! ### The indented form -/

/-- The end of a line, and the indentation of the next one. -/
def lineBreak (indent : Nat) : String := "\n" ++ "".pushn ' ' (2 * indent)

/-- Items between brackets, each on a line of its own one step further in; without items, the
brackets alone. -/
def bracketed (indent : Nat) (left right : String) (items : List String) : String :=
  if items.isEmpty then left ++ right
  else left ++ lineBreak (indent + 1) ++ ("," ++ lineBreak (indent + 1)).intercalate items
    ++ lineBreak indent ++ right

mutual

/-- The value over several lines, the first of which has the given indentation. -/
def prettyAt (indent : Nat) : Json → String
  | .null => "null"
  | .bool value => boolText value
  | .int value => toString value
  | .float value => floatText value
  | .str content => stringText content
  | .arr items => bracketed indent "[" "]" (prettyItems (indent + 1) items)
  | .obj entries => bracketed indent "\x7b" "\x7d" (prettyEntries (indent + 1) entries)

/-- The items of an array, each over several lines. -/
def prettyItems (indent : Nat) : List Json → List String
  | [] => []
  | item :: items => item.prettyAt indent :: prettyItems indent items

/-- The entries of an object, each over several lines. -/
def prettyEntries (indent : Nat) : List (String × Json) → List String
  | [] => []
  | (key, value) :: entries =>
    (stringText key ++ ": " ++ value.prettyAt indent) :: prettyEntries indent entries

end

/-- The value over several lines. -/
def pretty (json : Json) : String := json.prettyAt 0

/-! ### Keys that stand twice -/

mutual

/-- The value with one entry for each key of an object, at the place of the first entry and with
the value of the last. -/
def merged : Json → Json
  | .arr items => .arr (mergedItems items)
  | .obj entries => .obj (OrderedMap.ofList (mergedEntries entries)).entries
  | .null => .null
  | .bool value => .bool value
  | .int value => .int value
  | .float value => .float value
  | .str content => .str content

/-- The items of an array, each with its keys merged. -/
def mergedItems : List Json → List Json
  | [] => []
  | item :: items => item.merged :: mergedItems items

/-- The entries of an object, each value with its keys merged. -/
def mergedEntries : List (String × Json) → List (String × Json)
  | [] => []
  | (key, value) :: entries => (key, value.merged) :: mergedEntries entries

end

/-- An array of strings. -/
def ofStrings (items : List String) : Json := .arr (items.map .str)

end Json
end LaneScript
