import LaneScript.Token.Basic

/-!
# What can be wrong with a script

A `Fault` is the reason why a text is no script, and a `Failure` is a fault on a line of a file.
The wording of a fault is in one place, `Fault.message`.
-/

namespace LaneScript

/-- The deepest nesting of expressions. -/
def maxNesting : Nat := 64

/-- What a reader of tokens wanted to find. -/
inductive Expectation where
  /-- A mark or a keyword. -/
  | mark (text : String)
  /-- The colon between the branches of `a ? b : c`. -/
  | ternaryColon
  | methodName
  /-- The name behind `::`. -/
  | scopedName
  | identifier
  | rescueVariable
  | constantName
  deriving DecidableEq, Repr, Inhabited

/-- The wording of an expectation. -/
def Expectation.message : Expectation → String
  | .mark text => "'" ++ text ++ "'"
  | .ternaryColon => "':' in ternary"
  | .methodName => "method name"
  | .scopedName => "name after '::'"
  | .identifier => "identifier"
  | .rescueVariable => "rescue variable"
  | .constantName => "constant name"

/-- A reason why a text is no script. -/
inductive Fault where
  -- faults of a text
  | unexpectedChar (c : Char)
  | unterminatedString
  | unterminatedEscape
  | unterminatedInterpolation
  | invalidHexEscape
  | invalidUnicodeEscape
  /-- The digits name no character. -/
  | invalidEscape (digits : String)
  | unterminatedRegex
  | unterminatedWordList
  | unterminatedComment
  | unterminatedHeredoc (id : String)
  /-- A radix mark without digits. -/
  | invalidNumber (text : String)
  | missingName (sigil : Char)
  -- faults of a list of tokens
  /-- The token cannot stand here. -/
  | unexpected (token : Token)
  /-- Something else has to stand in the place of the token. -/
  | expected (what : Expectation) (token : Token)
  | invalidTarget
  | invalidTargetToken (token : Token)
  | nestedTooDeep
  /-- A level was left where none was entered. -/
  | unbalanced
  /-- The bound on the reader's recursion was too small. -/
  | outOfFuel
  deriving DecidableEq, Repr, Inhabited

/-- The wording of a fault. -/
def Fault.message : Fault → String
  | .unexpectedChar c => "unexpected character '" ++ c.toString ++ "'"
  | .unterminatedString => "unterminated string literal"
  | .unterminatedEscape => "unterminated escape in string"
  | .unterminatedInterpolation => "unterminated string interpolation"
  | .invalidHexEscape => "invalid hex escape"
  | .invalidUnicodeEscape => "invalid unicode escape"
  | .invalidEscape digits => "invalid escape '\\" ++ digits ++ "'"
  | .unterminatedRegex => "unterminated regex literal"
  | .unterminatedWordList => "unterminated word list"
  | .unterminatedComment => "unterminated =begin comment"
  | .unterminatedHeredoc id => "unterminated heredoc '" ++ id ++ "'"
  | .invalidNumber text => "invalid numeric literal '" ++ text ++ "'"
  | .missingName sigil => "expected name after '" ++ sigil.toString ++ "'"
  | .unexpected .done => "unexpected end of input"
  | .unexpected .newline => "unexpected end of line"
  | .unexpected (.word text) => "unexpected '" ++ text ++ "'"
  | .unexpected token => "unexpected token " ++ token.describe
  | .expected what token => "expected " ++ what.message ++ ", got " ++ token.describe
  | .invalidTarget => "invalid assignment target"
  | .invalidTargetToken token => "invalid assignment target " ++ token.describe
  | .nestedTooDeep => "expression nested deeper than " ++ toString maxNesting ++ " levels"
  | .unbalanced => "more levels left than entered"
  | .outOfFuel => "the script is too long"

/-- A fault, and the file and the line it is reported on. -/
structure Failure where
  file : String
  line : Nat
  fault : Fault
  deriving DecidableEq, Repr, Inhabited

end LaneScript
