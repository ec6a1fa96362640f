import LaneScript.Grammar.Nonterminal
import LaneScript.Token.Lexer

/-!
# String literals

Strings that stand side by side are one literal.  The code of an interpolation is read here, from
its source text: it sees the local variables in scope, and those it introduces are in scope behind
the string.
-/

namespace LaneScript

/-- Puts a part behind others; it grows a text that is last, and an empty text is left out. -/
def appendPart (parts : List StringPart) : StringPart → List StringPart
  | .text content =>
    if content.isEmpty then parts
    else match parts.getLast? with
      | some (.text before) => parts.dropLast ++ [.text (before ++ content)]
      | _ => parts ++ [.text content]
  | .code source line => parts ++ [.code source line]

/-- A text without characters. -/
def StringPart.isEmptyText : StringPart → Bool
  | .text content => content.isEmpty
  | .code _ _ => false

/-- The parts of two strings that stand side by side.  An empty text stays only when it is all
there is. -/
def appendParts (parts others : List StringPart) : List StringPart :=
  let joined := others.foldl appendPart parts
  if joined.length > 1 then joined.filter (!·.isEmptyText) else joined

namespace Rule

open LaneScript.Parser

/-- A whole script: statements up to the end of the input. -/
def program (read : Reader) : Parser (List Node) := do
  let body ← read (.statements [])
  if (← current).token != .done then unexpected
  return body

/-- The statements of an interpolation, whose source starts on the given line. -/
def interpolation (read : Reader) (source : String) (line : Nat) : Parser (List Node) := do
  let outer ← get
  let tokens ← lift (lexFrom outer.file line source)
  let (body, inner) ←
    lift ((program read).run (.start outer.file tokens outer.scopes (outer.depth + 1)))
  set { outer with scopes := Scope.absorb inner.scopes outer.scopes }
  return body

/-- The segments of a literal. -/
def segments (read : Reader) : List StringPart → Parser (List Segment)
  | [] => return []
  | .text content :: others => return .text content :: (← segments read others)
  | .code source line :: others => do
    let body ← interpolation read source line
    return .code body :: (← segments read others)

/-- The text of a segment without code. -/
def plainText? : Segment → Option String
  | .text content => some content
  | .code _ => none

/-- A string literal; without code it is a plain string. -/
def stringForm (read : Reader) (parts : List StringPart) : Parser Form := do
  let found ← segments read parts
  match found.mapM plainText? with
  | some texts => return .str (String.join texts)
  | none => return .template .double found

/-- A string literal and those beside it, behind the first one. -/
def strings (read : Reader) (first : List StringPart) : Parser Form := do
  let (others, cursor) := (← get).cursor.strings
  modify fun s => { s with cursor := cursor }
  stringForm read (others.foldl appendParts first)

end Rule
end LaneScript
