import LaneScript.Grammar.Call
import LaneScript.Grammar.Control
import LaneScript.Grammar.Definition
import LaneScript.Grammar.Literal

/-!
# Primary expressions

Literals, names, bracketed expressions and the constructs that a keyword opens.  Which of these it
is shows in the first token.
-/

namespace LaneScript.Rule

open LaneScript.Parser

/-- The keywords that are values, and the jumps that take none. -/
def atom? : String → Option Atom
  | "nil" => some .nilValue
  | "true" => some .trueValue
  | "false" => some .falseValue
  | "self" => some .selfValue
  | "redo" => some .redo
  | "retry" => some .retry
  | _ => none

/-- The keywords of the jumps that may take a value. -/
def jump? : String → Option Jump
  | "return" => some .leave
  | "next" => some .next
  | "break" => some .stop
  | _ => none

/-- The construct that a keyword opens. -/
def construct? (read : Reader) (line : Nat) : String → Option (Parser Node)
  | "if" => some (conditional read line)
  | "unless" => some (unlessThen read line)
  | "while" => some (loop read false line)
  | "until" => some (loop read true line)
  | "for" => some (forEach read line)
  | "case" => some (caseOf read line)
  | "begin" => some do return ⟨(← clauses read).form, line⟩
  | "def" => some (method read line)
  | "class" => some (classDef read line)
  | "module" => some (moduleDef read line)
  | _ => none

/-- A `defined?`, behind its keyword. -/
def definedForm (read : Reader) : Parser Form := do
  let paren ← eat .lparen
  let operand ← read .expression
  if paren then expect .rparen ")"
  return .defined operand

/-- The expression that starts with a word: a keyword, a local variable or a call without a
receiver. -/
def word (read : Reader) (text : String) (line : Nat) : Parser Node := do
  if let some atom := atom? text then
    advance
    return ⟨.atom atom, line⟩
  else if let some construct := construct? read line text then
    advance
    construct
  else if let some jump := jump? text then
    advance
    let value ← if ← startsExpression then pure (some (← read .expression)) else pure none
    return ⟨.jump jump value, line⟩
  else if text == "yield" then
    advance
    return ⟨.yield ((← arguments? read).getD []), line⟩
  else if text == "super" then
    advance
    return ⟨.super (← arguments? read), line⟩
  else if text == "defined?" then
    advance
    return ⟨← definedForm read, line⟩
  else if text == "not" then
    advance
    return ⟨.not (← read .expression), line⟩
  else if stopWords.contains text then unexpected
  else
    advance
    if (← isLocal text) && !(← isAtCallParen) then return ⟨.localVar text, line⟩
    else call read none text false line

/-- Statements in parentheses, behind the opening one.  A single one stands for itself. -/
def parenthesized (read : Reader) (line : Nat) : Parser Node := do
  let body ← allowingDo (read (.statements []))
  skipTerminators
  expect .rparen ")"
  match body with
  | [] => return ⟨.atom .nilValue, line⟩
  | [only] => return only
  | _ => return ⟨.paren body, line⟩

/-- The array that a list of words stands for. -/
def wordArray (symbols : Bool) (items : List String) (line : Nat) : Form :=
  .array (items.map fun item => ⟨if symbols then .sym item else .str item, line⟩)

/-- A constant, or the call of a method with such a name, behind the name. -/
def constant (read : Reader) (name : String) (line : Nat) : Parser Node := do
  if ← isAtCallParen then call read none name false line else return ⟨.const none name, line⟩

/-- A constant of the outermost scope, behind its `::`. -/
def outermost (line : Nat) : Parser Node := do
  match (← current).token with
  | .const name =>
    advance
    return ⟨.const none name, line⟩
  | _ => unexpected

/-- The form that the first token tells, behind this token; words are read by `word`. -/
def formBehind? (read : Reader) (line : Nat) : Token → Option (Parser Node)
  | .int value => some (return ⟨.int value, line⟩)
  | .bigInt text => some (return ⟨.bigInt text, line⟩)
  | .float value => some (return ⟨.float value, line⟩)
  | .str parts => some do return ⟨← strings read parts, line⟩
  | .command parts => some do return ⟨.template .command (← segments read parts), line⟩
  | .symbol name => some (return ⟨.sym name, line⟩)
  | .words symbols items => some (return ⟨wordArray symbols items line, line⟩)
  | .regex source flags => some (return ⟨.regex source flags, line⟩)
  | .var sigil name => some (return ⟨.var sigil name, line⟩)
  | .const name => some (constant read name line)
  | .scope => some (outermost line)
  | .lparen => some (parenthesized read line)
  | .lbracket => some do return ⟨.array (← items read .rbracket "]"), line⟩
  | .lbrace => some do return ⟨.hash (← entries read) true, line⟩
  | .lambda => some (lambda read line)
  | .op (.range exclusive) => some do
    return ⟨.range none (some (← read (.operation BinaryOp.levels))) exclusive, line⟩
  | _ => none

/-- A primary expression. -/
def primary (read : Reader) : Parser Node := do
  let here ← current
  match here.token with
  | .word text => word read text here.line
  | token =>
    match formBehind? read here.line token with
    | some form =>
      advance
      form
    | none => unexpected

end LaneScript.Rule
