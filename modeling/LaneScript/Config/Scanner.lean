import LaneScript.Number.Digits

/-!
# Scanning a TOML file

A scanner takes something from the start of a text, or fails.  The scanners here take what every
line is made of: blanks, comments, line ends and strings.  Strings have four forms, over one line or
several, with escapes or without.

The loops run on a bound, and the length of the text is enough.
-/

namespace LaneScript.Config

open Number (ofDigits isDigitOf)

/-- Reads something from the start of a text, if it is there. -/
abbrev Scanner := StateT (List Char) Option

namespace Scanner

/-! ### Blanks, comments and line ends -/

/-- A control character other than the tab, which no line may hold. -/
def isForbidden (c : Char) : Bool := (c.toNat < 0x20 && c != '\t') || c.toNat == 0x7f

/-- The next character. -/
def next? : Scanner (Option Char) := return (← get).head?

/-- Takes the given text. -/
def take (text : String) : Scanner Unit := do
  let rest ← get
  if text.toList.isPrefixOf rest then set (rest.drop text.length) else failure

/-- Takes the given text if it is there. -/
def takes (text : String) : Scanner Bool := do
  let rest ← get
  if text.toList.isPrefixOf rest then
    set (rest.drop text.length)
    return true
  else return false

/-- Takes the characters of a class. -/
def takeClass (member : Char → Bool) : Scanner (List Char) := do
  let rest ← get
  set (rest.dropWhile member)
  return rest.takeWhile member

/-- Passes over blanks and tabs. -/
def skipBlanks : Scanner Unit := do
  let _ ← takeClass fun c => c == ' ' || c == '\t'

/-- Passes over a comment, if there is one. -/
def skipComment : Scanner Unit := do
  if ← takes "#" then
    let text ← takeClass fun c => c != '\n' && c != '\r'
    if text.any isForbidden then failure

/-- Takes a line end. -/
def takesLineEnd : Scanner Bool := do
  if ← takes "\n" then return true else takes "\r\n"

/-- The rest of a line: blanks, a comment, and the end of the line or of the text. -/
def restOfLine : Scanner Unit := do
  skipBlanks
  skipComment
  if ← takesLineEnd then return ()
  else if (← get).isEmpty then return ()
  else failure

/-- Passes over blanks, comments and line ends; `bound` is a bound on the lines. -/
def skipLines : Nat → Scanner Unit
  | 0 => skipBlanks
  | bound + 1 => do
    skipBlanks
    skipComment
    if ← takesLineEnd then skipLines bound

/-! ### Strings -/

/-- The character of a code point. -/
def charOf (digits : List Char) : Option Char :=
  let code := ofDigits 16 digits
  if digits.all (isDigitOf 16) && (code < 0xd800 || (0xdfff < code && code < 0x110000)) then
    some (Char.ofNat code)
  else none

/-- The character that an escape stands for, behind its backslash, and what follows. -/
def escape? : List Char → Option (Char × List Char)
  | 'b' :: rest => some ('\x08', rest)
  | 't' :: rest => some ('\t', rest)
  | 'n' :: rest => some ('\n', rest)
  | 'f' :: rest => some ('\x0c', rest)
  | 'r' :: rest => some ('\r', rest)
  | '"' :: rest => some ('"', rest)
  | '\\' :: rest => some ('\\', rest)
  | 'u' :: rest => if rest.length < 4 then none else (charOf (rest.take 4)).map (·, rest.drop 4)
  | 'U' :: rest => if rest.length < 8 then none else (charOf (rest.take 8)).map (·, rest.drop 8)
  | _ => none

/-- The rest of a string on one line, up to its quote; `bound` is a bound on its characters. -/
def lineString (quote : Char) : Nat → Scanner (List Char)
  | 0 => failure
  | bound + 1 => do
    match ← get with
    | [] => failure
    | c :: rest =>
      set rest
      if c == quote then return []
      else if isForbidden c then failure
      else if c == '\\' && quote == '"' then
        let (found, rest) ← escape? rest
        set rest
        return found :: (← lineString quote bound)
      else return c :: (← lineString quote bound)

/-- How many quotes stand next, five at the most. -/
def quotesAhead (quote : Char) (text : List Char) : Nat :=
  ((text.take 5).takeWhile (· == quote)).length

/-- Drops blanks, tabs and line ends. -/
def dropSpace : List Char → List Char
  | ' ' :: rest | '\t' :: rest | '\n' :: rest | '\r' :: '\n' :: rest => dropSpace rest
  | rest => rest

/-- The text behind a backslash at the end of a line: the blanks and line ends behind it do not
count. -/
def behindLine (text : List Char) : Option (List Char) :=
  match text.dropWhile fun c => c == ' ' || c == '\t' with
  | '\n' :: rest => some (dropSpace rest)
  | '\r' :: '\n' :: rest => some (dropSpace rest)
  | _ => none

/-- The rest of a string over several lines, up to three quotes; up to two more belong to it. -/
def linesString (quote : Char) : Nat → Scanner (List Char)
  | 0 => failure
  | bound + 1 => do
    let text ← get
    let quotes := quotesAhead quote text
    if 3 ≤ quotes then
      set (text.drop quotes)
      return List.replicate (quotes - 3) quote
    match text with
    | [] => failure
    | '\r' :: '\n' :: rest =>
      set rest
      return '\n' :: (← linesString quote bound)
    | c :: rest =>
      set rest
      if c == '\\' && quote == '"' then
        match behindLine rest with
        | some rest =>
          set rest
          linesString quote bound
        | none =>
          let (found, rest) ← escape? rest
          set rest
          return found :: (← linesString quote bound)
      else if isForbidden c && c != '\n' then failure
      else return c :: (← linesString quote bound)

/-- A string on one line. -/
def shortString (quote : Char) : Scanner String := do
  take quote.toString
  return String.ofList (← lineString quote (← get).length)

/-- A string of any form. -/
def string (quote : Char) : Scanner String := do
  if ← takes ("".pushn quote 3) then
    let _ ← takesLineEnd
    return String.ofList (← linesString quote ((← get).length + 1))
  else shortString quote

end Scanner
end LaneScript.Config
