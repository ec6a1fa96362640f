import LaneScript.Literal.StringBody
import LaneScript.Text.Words

/-!
# Heredocs

A heredoc stands in a line as an opener such as `<<~TEXT`, and its body is the lines that follow,
up to one that holds the same name.  The body is read when the line ends, because other tokens may
stand behind the opener, among them further openers, whose bodies follow in order.

`dedent` removes from the lines of a `<<~` heredoc the indentation that they share.
-/

namespace LaneScript.Literal

open Text (isBlank isNameChar isUppercase trim trimRight)

/-- The opener of a heredoc. -/
structure HeredocOpener where
  id : List Char
  /-- Blanks may stand around the closing name. -/
  indentedEnd : Bool
  /-- The lines lose the indentation that they share. -/
  dedented : Bool
  /-- The body is taken as it stands. -/
  raw : Bool
  deriving DecidableEq, Repr

/-- The opener that a text starts with, from behind its `<<`, and the number of its characters.  A
name that is neither quoted nor marked by `~` or `-` has to start with a capital. -/
def heredocOpener? (text : List Char) : Option (HeredocOpener × Nat) :=
  let mark := (text.take 1).filter fun c => c == '~' || c == '-'
  let behind := text.drop mark.length
  let quote := (behind.take 1).filter fun c => c == '\'' || c == '"' || c == '\x60'
  let id := (behind.drop quote.length).takeWhile isNameChar
  let closed := (behind.drop (quote.length + id.length)).take quote.length == quote
  let bare := mark.isEmpty && quote.isEmpty
  if id.isEmpty || !closed || (bare && !(id.take 1).all isUppercase) then none
  else
    some (⟨id, !mark.isEmpty, mark == ['~'], quote == ['\'']⟩,
      mark.length + id.length + 2 * quote.length)

/-- The line closes the heredoc. -/
def HeredocOpener.isEnd (opener : HeredocOpener) (line : List Char) : Bool :=
  (if opener.indentedEnd then trim line else line) == opener.id

/-- The lines of a heredoc's body without their line ends, and how many characters of the text they
and the closing line take.  Carriage returns at the end of a line do not belong to it. -/
def heredocLines? (opener : HeredocOpener) (text : List Char) : Option (List (List Char) × Nat) :=
  match text with
  | [] => none
  | c :: rest =>
    let line := (c :: rest).takeWhile (· != '\n')
    let content := trimRight (· == '\r') line
    if opener.isEnd content then some ([], line.length + 1)
    else
      (heredocLines? opener (rest.drop line.length)).map fun (lines, length) =>
        (content :: lines, line.length + 1 + length)
termination_by text.length
decreasing_by simp only [List.length_drop, List.length_cons]; omega

/-- A character of an indentation. -/
def isIndent (c : Char) : Bool := c == ' ' || c == '\t'

/-- A line of blanks only. -/
def isBlankLine (line : List Char) : Bool := line.all isBlank

/-- The indentation that the lines with text share; none when there is no such line. -/
def sharedIndent (lines : List (List Char)) : Nat :=
  (((lines.filter (!isBlankLine ·)).map fun line => (line.takeWhile isIndent).length).min?).getD 0

/-- The lines without the indentation that they share. -/
def dedent (lines : List (List Char)) : List (List Char) :=
  lines.map (·.drop (sharedIndent lines))

/-- The parts of a heredoc whose body has the given lines and starts on the given line. -/
def HeredocOpener.parts (opener : HeredocOpener) (line : Nat) (lines : List (List Char)) :
    Except Fault (List StringPart) :=
  let lines := if opener.dedented then dedent lines else lines
  let body := lines.flatMap (· ++ ['\n'])
  if opener.raw then .ok [.text (String.ofList body)]
  else (scanBody none true line body).map (·.1)

end LaneScript.Literal
