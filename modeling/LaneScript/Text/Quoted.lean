import LaneScript.Text.CharClass

/-!
# Text quoted in a message

A message shows a piece of a script between double quotes, such that one line holds it and nothing
in it is invisible: quotes, backslashes and the common controls are escaped by a letter, and what
has no glyph of its own by its code point.
-/

namespace LaneScript.Text

/-- A number in lower-case hexadecimal, without leading zeros. -/
def hexadecimal (n : Nat) : String := String.ofList (Nat.toDigits 16 n)

/-- A character as it stands inside the quotes of a message. -/
def quotedChar (c : Char) : String :=
  if c == '"' then "\\\""
  else if c == '\\' then "\\\\"
  else if c == '\n' then "\\n"
  else if c == '\r' then "\\r"
  else if c == '\t' then "\\t"
  else if c.toNat == 0 then "\\0"
  else if isCombining c || !isPrintable c then "\\u\x7b" ++ hexadecimal c.toNat ++ "\x7d"
  else c.toString

/-- A text between the quotes of a message. -/
def quoted (text : String) : String :=
  "\"" ++ String.join (text.toList.map quotedChar) ++ "\""

end LaneScript.Text
