import LaneScript.Text.Alphabetic
import LaneScript.Text.Combining
import LaneScript.Text.Numeric
import LaneScript.Text.Unprintable
import LaneScript.Text.Uppercase

/-!
# Character classes

Scripts are written in any language, so names, blanks and quoting follow the properties of Unicode
and not the letters of ASCII.  Every class answers for an ASCII character by comparison, and for
any other by looking it up in a table: the many ASCII characters of a script never touch a table,
and a proof about them never unfolds one.
-/

namespace LaneScript.Text

/-- The code point has the property that the runs tell: they count, in turns and from zero on, the
code points that do not have it and those that do. -/
def inRuns : List Nat → Nat → Bool
  | without :: having :: runs, code =>
    if code < without then false
    else code - without < having || inRuns runs (code - without - having)
  | _, _ => false

/-- The code point is the first one of a pair in one of the rows.  A row is given by its first code
point and by how many pairs there are. -/
def startsPair (rows : Array (Nat × Nat)) (code : Nat) : Bool :=
  rows.any fun row => row.1 ≤ code && code < row.1 + 2 * row.2 && (code - row.1) % 2 == 0

/-- Below U+0080. -/
def isAscii (c : Char) : Bool := c.toNat < 0x80

/-- A letter of any script. -/
def isAlphabetic (c : Char) : Bool :=
  if isAscii c then c.isAlpha else inRuns alphabeticRuns c.toNat

/-- A number of any script: a digit, a numeral or a fraction. -/
def isNumeric (c : Char) : Bool :=
  if isAscii c then c.isDigit else inRuns numericRuns c.toNat

/-- A letter or a number of any script. -/
def isAlphanumeric (c : Char) : Bool := isAlphabetic c || isNumeric c

/-- A capital of any script. -/
def isUppercase (c : Char) : Bool :=
  if isAscii c then c.isUpper
  else inRuns uppercaseRuns c.toNat || startsPair capitalPairs c.toNat

/-- Code points from U+0080 upward with the property White_Space. -/
def wideBlanks : List Nat :=
  [0x85, 0xa0, 0x1680, 0x2000, 0x2001, 0x2002, 0x2003, 0x2004, 0x2005, 0x2006, 0x2007, 0x2008,
    0x2009, 0x200a, 0x2028, 0x2029, 0x202f, 0x205f, 0x3000]

/-- White space of any kind: the blank, tabs, line ends and their relatives. -/
def isBlank (c : Char) : Bool :=
  if isAscii c then (9 ≤ c.toNat && c.toNat ≤ 13) || c == ' ' else wideBlanks.contains c.toNat

/-- A control character. -/
def isControl (c : Char) : Bool := c.toNat < 0x20 || (0x7f ≤ c.toNat && c.toNat ≤ 0x9f)

/-- A character that attaches to the one before it. -/
def isCombining (c : Char) : Bool := !isAscii c && inRuns combiningRuns c.toNat

/-- A character that a message can show as it is. -/
def isPrintable (c : Char) : Bool :=
  if isAscii c then 0x20 ≤ c.toNat && c.toNat < 0x7f else !inRuns unprintableRuns c.toNat

/-- The characters of a name: letters, numbers and the underscore. -/
def isNameChar (c : Char) : Bool := isAlphanumeric c || c == '_'

/-- The characters that a name may start with. -/
def isNameStart (c : Char) : Bool := isAlphabetic c || c == '_'

theorem isNameChar_of_isNameStart {c : Char} (h : isNameStart c = true) : isNameChar c = true := by
  simp only [isNameStart, isNameChar, isAlphanumeric, Bool.or_eq_true] at h ⊢
  rcases h with h | h <;> simp [h]

end LaneScript.Text
