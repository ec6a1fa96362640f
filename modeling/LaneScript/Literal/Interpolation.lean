/-!
# The end of an interpolation

The code of an interpolation ends at the brace that closes it.  Braces inside the code are
balanced, and those inside a quoted section do not count; in a quoted section a backslash takes the
next character with it.  `closingBrace` walks the text once, one character at a time.
-/

namespace LaneScript.Literal

/-- Where in the code of an interpolation the walk stands: in plain code, in a section between two
quotes, or behind a backslash in such a section.  `depth` counts the braces left open. -/
inductive CodePlace where
  | plain (depth : Nat)
  | inQuotes (quote : Char) (depth : Nat)
  | escaped (quote : Char) (depth : Nat)
  deriving DecidableEq, Repr

/-- The position of the brace that closes the code, counted from the start of the list. -/
def closingBraceFrom : CodePlace → List Char → Option Nat
  | _, [] => none
  | .escaped quote depth, _ :: rest =>
    (closingBraceFrom (.inQuotes quote depth) rest).map (· + 1)
  | .inQuotes quote depth, c :: rest =>
    let next :=
      if c == '\\' then .escaped quote depth
      else if c == quote then .plain depth
      else .inQuotes quote depth
    (closingBraceFrom next rest).map (· + 1)
  | .plain depth, c :: rest =>
    if c == '{' then (closingBraceFrom (.plain (depth + 1)) rest).map (· + 1)
    else if c == '}' then
      match depth with
      | 0 => some 0
      | depth + 1 => (closingBraceFrom (.plain depth) rest).map (· + 1)
    else if c == '"' || c == '\'' then
      (closingBraceFrom (.inQuotes c depth) rest).map (· + 1)
    else (closingBraceFrom (.plain depth) rest).map (· + 1)

/-- The length of the code that a closing brace ends, from the start of the list. -/
def closingBrace (text : List Char) : Option Nat := closingBraceFrom (.plain 0) text

end LaneScript.Literal
