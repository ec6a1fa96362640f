import LaneScript.Number.Binary64
import LaneScript.Text.Quoted
import LaneScript.Number.Written
import LaneScript.Token.Operator

/-!
# Tokens

A script is read as a list of tokens, each with the line it starts on and with whether blank space
stands before it: `foo [1]` passes an argument where `foo[1]` takes an element.  A string token
keeps the code of its interpolations as source text, which is read later, in the scope in which the
string stands.

`Token.describe` is the form in which messages show a token.
-/

namespace LaneScript

open Number (Binary64 Style)
open Text (quoted)

/-- One piece of a string literal. -/
inductive StringPart where
  /-- Text with its escapes resolved. -/
  | text (content : String)
  /-- The source text of an interpolation and the line it starts on. -/
  | code (source : String) (line : Nat)
  deriving DecidableEq, Repr, Inhabited

/-- The mark in front of a variable that is not local. -/
inductive Sigil where
  | instanceLevel | classLevel | global
  deriving DecidableEq, Repr, Inhabited

namespace Sigil

/-- The mark as it is written. -/
def text : Sigil → String
  | .instanceLevel => "@" | .classLevel => "@@" | .global => "$"

/-- The variable of this kind as it is written. -/
def spell (sigil : Sigil) (name : String) : String := sigil.text ++ name

end Sigil

/-- A token of the script language. -/
inductive Token where
  /-- A name that does not start with a capital; keywords are words too. -/
  | word (text : String)
  /-- A name that starts with a capital. -/
  | const (name : String)
  /-- A variable with a mark. -/
  | var (sigil : Sigil) (name : String)
  /-- A name with a colon behind it, as in `scheme: "App"`. -/
  | label (name : String)
  /-- A symbol without its colon. -/
  | symbol (name : String)
  | str (parts : List StringPart)
  /-- A string between backticks. -/
  | command (parts : List StringPart)
  /-- A list of words such as `%w[a b]`, of symbols for `%i`. -/
  | words (symbols : Bool) (items : List String)
  /-- A regular expression, kept as it is written. -/
  | regex (source flags : String)
  /-- An integer below `2^63`. -/
  | int (value : Int)
  /-- A greater integer as it is written, without its underscores. -/
  | bigInt (text : String)
  | float (value : Binary64)
  | op (operator : Operator)
  | lparen | rparen | lbracket | rbracket | lbrace | rbrace
  | comma | dot
  /-- The mark `&.`. -/
  | safeDot
  /-- The mark `::`. -/
  | scope
  /-- The mark `=>`. -/
  | arrow
  /-- The mark `->`. -/
  | lambda
  | newline | semicolon
  /-- The end of the input. -/
  | done
  deriving DecidableEq, Repr, Inhabited

/-- A token, where it stands and whether blank space or the start of the input is before it. -/
structure Located where
  token : Token
  line : Nat
  spaced : Bool
  deriving DecidableEq, Repr, Inhabited

/-! ### Tokens in messages -/

/-- A value with a name around it, as messages show it. -/
def describeWith (name content : String) : String := name ++ "(" ++ content ++ ")"

/-- A list of descriptions, as messages show it. -/
def describeList (items : List String) : String := "[" ++ ", ".intercalate items ++ "]"

/-- Named fields behind a name, as messages show them. -/
def describeFields (name : String) (fields : List (String × String)) : String :=
  name ++ " \x7b " ++ ", ".intercalate (fields.map fun field => field.1 ++ ": " ++ field.2)
    ++ " \x7d"

/-- A truth value, as messages show it. -/
def describeBool (b : Bool) : String := if b then "true" else "false"

/-- A piece of a string, as messages show it. -/
def StringPart.describe : StringPart → String
  | .text content => describeWith "Lit" (quoted content)
  | .code source line =>
    describeFields "Interp" [("source", quoted source), ("line", toString line)]

/-- The name of a kind of variable in messages. -/
def Sigil.describe : Sigil → String
  | .instanceLevel => "IVar" | .classLevel => "CVar" | .global => "GVar"

/-- A token, as messages show it. -/
def Token.describe : Token → String
  | .word text => describeWith "Word" (quoted text)
  | .const name => describeWith "Const" (quoted name)
  | .var sigil name => describeWith sigil.describe (quoted (sigil.spell name))
  | .label name => describeWith "Label" (quoted name)
  | .symbol name => describeWith "Symbol" (quoted name)
  | .str parts => describeWith "Str" (describeList (parts.map StringPart.describe))
  | .command parts => describeWith "XStr" (describeList (parts.map StringPart.describe))
  | .words symbols items =>
    describeFields "Words"
      [("symbols", describeBool symbols), ("items", describeList (items.map quoted))]
  | .regex source flags =>
    describeFields "Regex" [("source", quoted source), ("flags", quoted flags)]
  | .int value => describeWith "Int" (toString value)
  | .bigInt text => describeWith "BigInt" (quoted text)
  | .float value => describeWith "Float" (Style.diagnostic.text value)
  | .op operator => describeWith "Op" (quoted operator.text)
  | .lparen => "LParen" | .rparen => "RParen"
  | .lbracket => "LBracket" | .rbracket => "RBracket"
  | .lbrace => "LBrace" | .rbrace => "RBrace"
  | .comma => "Comma" | .dot => "Dot" | .safeDot => "SafeNav" | .scope => "ColonColon"
  | .arrow => "Arrow" | .lambda => "Lambda"
  | .newline => "Newline" | .semicolon => "Semi" | .done => "Eof"

end LaneScript
