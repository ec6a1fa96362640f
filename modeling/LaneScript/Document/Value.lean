import LaneScript.Json.Basic
import LaneScript.Token.Basic

/-!
# Parameter values

The parameters of an action are one value or named values.  Named values may in turn be named
values, though no script says so: what a script writes inside another value is reduced to a single
one (`Node.isScalar_decode`).
-/

namespace LaneScript

open Number (Binary64 Style)
open Text (quoted)

/-- The value of a parameter. -/
inductive Value where
  /-- No value, or nothing that could be decoded. -/
  | absent
  | bool (value : Bool)
  | int (value : Int)
  | float (value : Binary64)
  | str (content : String)
  /-- A symbol without its colon, or a name that stands for itself. -/
  | symbol (name : String)
  /-- Values with their names, the entries of an `OrderedMap`. -/
  | map (entries : List (String × Value))
  deriving Inhabited

namespace Value

/-- There is no value. -/
def isAbsent : Value → Bool
  | .absent => true
  | _ => false

/-- The value is a single one. -/
def isScalar : Value → Bool
  | .map _ => false
  | _ => true

/-- The content of a string or a symbol. -/
def content? : Value → Option String
  | .str content | .symbol content => some content
  | _ => none

mutual

/-- The value as plain text, those of a map behind their names. -/
def text : Value → String
  | .absent => ""
  | .bool value => if value then "true" else "false"
  | .int value => toString value
  | .float value => Style.plain.text value
  | .str content => content
  | .symbol name => name
  | .map entries => ", ".intercalate (entryTexts entries)

/-- The entries of a map as plain text. -/
def entryTexts : List (String × Value) → List String
  | [] => []
  | (name, value) :: others => (name ++ ": " ++ value.text) :: entryTexts others

end

mutual

/-- The value, as messages show it. -/
def describe : Value → String
  | .absent => "Absent"
  | .bool value => describeWith "Bool" (describeBool value)
  | .int value => describeWith "Int" (toString value)
  | .float value => describeWith "Float" (Style.diagnostic.text value)
  | .str content => describeWith "Str" (quoted content)
  | .symbol name => describeWith "Symbol" (quoted name)
  | .map entries =>
    describeWith "Map" ("\x7b" ++ ", ".intercalate (describeEntries entries) ++ "\x7d")

/-- The entries of a map, as messages show them. -/
def describeEntries : List (String × Value) → List String
  | [] => []
  | (name, value) :: others => (quoted name ++ ": " ++ value.describe) :: describeEntries others

end

mutual

/-- The value in JSON. -/
def toJson : Value → Json
  | .absent => .null
  | .bool value => .bool value
  | .int value => .int value
  | .float value => .float value
  | .str content => .str content
  | .symbol name => .str name
  | .map entries => .obj (entriesToJson entries)

/-- The entries of a map in JSON. -/
def entriesToJson : List (String × Value) → List (String × Json)
  | [] => []
  | (name, value) :: others => (name, value.toJson) :: entriesToJson others

end

/-! ### Equality -/

mutual

/-- The values are the same. -/
def same : Value → Value → Bool
  | .absent, .absent => true
  | .bool value, .bool other => value == other
  | .int value, .int other => value == other
  | .float value, .float other => value == other
  | .str content, .str other => content == other
  | .symbol name, .symbol other => name == other
  | .map entries, .map others => sameEntries entries others
  | _, _ => false

/-- The entries are the same, in the same order. -/
def sameEntries : List (String × Value) → List (String × Value) → Bool
  | [], [] => true
  | (name, value) :: entries, (other, value') :: others =>
    name == other && value.same value' && sameEntries entries others
  | _, _ => false

end

mutual

theorem same_iff (value other : Value) : value.same other = true ↔ value = other := by
  cases value with
  | map entries => cases other <;> simp [same, sameEntries_iff entries]
  | _ => cases other <;> simp [same]
termination_by structural value

theorem sameEntries_iff :
    ∀ entries others : List (String × Value), sameEntries entries others = true ↔ entries = others
  | [], others => by cases others <;> simp [sameEntries]
  | (name, value) :: entries, [] => by simp [sameEntries]
  | (name, value) :: entries, (name', value') :: others => by
    simp [sameEntries, same_iff value, sameEntries_iff entries]
termination_by structural entries => entries

end

instance : DecidableEq Value := fun value other => decidable_of_iff _ (value.same_iff other)

end Value
end LaneScript
