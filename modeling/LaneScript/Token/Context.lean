import LaneScript.Text.CharClass
import LaneScript.Token.Basic

/-!
# What stands before a token

Some characters mean different things in different places: `/` divides behind a value and opens a
regular expression elsewhere.  What decides is the token before it and whether blank space stands
between the two; a `Context` is these two facts.
-/

namespace LaneScript

open Text (isBlank)

/-- What stands immediately before a place in the text. -/
inductive Gap where
  /-- the start of the text or a line end -/
  | lineStart
  /-- other blank space -/
  | blank
  /-- anything else -/
  | none
  deriving DecidableEq, Repr

namespace Gap

/-- The gap behind a character. -/
def ofChar (c : Char) : Gap :=
  if c == '\n' then .lineStart else if isBlank c then .blank else .none

/-- The gap behind a text; behind no text it is the start. -/
def behind (text : List Char) : Gap :=
  match text.getLast? with
  | some c => ofChar c
  | Option.none => .lineStart

/-- There is blank space, or nothing at all. -/
def isSpaced : Gap → Bool
  | .none => false
  | _ => true

end Gap

/-- The place where a token may start. -/
structure Context where
  last : Option Token
  gap : Gap
  deriving DecidableEq, Repr

/-- Words behind which an expression is still to come. -/
def openingWords : List String :=
  ["if", "unless", "while", "until", "and", "or", "not", "return", "when", "elsif", "then", "do",
    "case", "in", "else", "begin", "yield", "next", "break"]

namespace Token

/-- A word that can stand for a value. -/
def isNamingWord : Token → Bool
  | .word text => !openingWords.contains text
  | _ => false

/-- The token ends a value. -/
def endsValue : Token → Bool
  | .word text => !openingWords.contains text
  | .const _ | .var _ _ | .symbol _ | .str _ | .command _ | .words _ _ | .regex _ _
  | .int _ | .bigInt _ | .float _ | .rparen | .rbracket | .rbrace => true
  | _ => false

end Token

namespace Context

/-- A value ends before this place. -/
def afterValue (context : Context) : Bool := context.last.any Token.endsValue

/-- A method name is due: the place is behind a dot. -/
def afterDot (context : Context) : Bool :=
  context.last == some .dot || context.last == some .safeDot

/-- The place is where the argument of a command may start, as in `puts %w[a]`: behind a word and
a blank, with `next`, the character behind the opening mark, close to it. -/
def startsArgument (context : Context) (next : Option Char) : Bool :=
  context.last.any Token.isNamingWord && context.gap.isSpaced
    && next.any fun c => !isBlank c && c != '='

/-- A mark that is also an operator opens a literal here. -/
def allowsLiteral (context : Context) (next : Option Char) : Bool :=
  !context.afterValue || context.startsArgument next

/-- A colon starts a symbol here. -/
def allowsSymbol (context : Context) : Bool := !context.afterValue || context.gap.isSpaced

end Context
end LaneScript
