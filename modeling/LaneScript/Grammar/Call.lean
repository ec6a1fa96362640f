import LaneScript.Grammar.Block
import LaneScript.Grammar.Sequence

/-!
# Calls and what is chained to a value

Behind the name of a method stand its arguments and perhaps a block.  Behind a value stand any
number of calls on it, names looked up in it, and elements taken from it; a chain goes on over a
line end when the next line starts with a dot.
-/

namespace LaneScript.Rule

open LaneScript.Parser

/-- A call, behind the name of its method. -/
def call (read : Reader) (receiver : Option Node) (name : String) (safe : Bool) (line : Nat) :
    Parser Node := do
  let paren ← isAtCallParen
  let args := (← arguments? read).getD []
  let found : Node := ⟨.call receiver name args safe, line⟩
  -- the braces behind the arguments of a command are no block of the command
  let takesBraces := paren || args.isEmpty
  let brace ← isAt .lbrace
  let keyword ← isAt (.word "do")
  if (brace && takesBraces) || (keyword && (← get).claimsDo == 0) then block read found
  else return found

/-- The name of a method behind a dot.  Parentheses without a name call the value itself. -/
def methodName : Parser String := do
  match (← current).token with
  | .word name | .const name =>
    advance
    return name
  | .lparen => return "call"
  | _ => expected .methodName

/-- A call on a value, at the dot. -/
def callOn (read : Reader) (receiver : Node) (safe : Bool) : Parser Node := do
  advance
  skipNewlines
  let line ← line
  let name ← methodName
  call read (some receiver) name safe line

/-- The name looked up in a value, or the method called on it, at the mark `::`. -/
def lookedUp (read : Reader) (scope : Node) : Parser Node := do
  advance
  let here ← current
  let behind ← peek 1
  match here.token with
  | .const name =>
    advance
    if behind.token == .lparen && !behind.spaced then call read (some scope) name false here.line
    else return ⟨.const (some scope) name, here.line⟩
  | .word name =>
    advance
    call read (some scope) name false here.line
  | _ => expected .scopedName

/-- Elements taken from a value, at the bracket. -/
def indexed (read : Reader) (receiver : Node) : Parser Node := do
  let line ← line
  advance
  return ⟨.index receiver (← items read .rbracket "]"), line⟩

/-- What is chained to a value. -/
def chain (read : Reader) (node : Node) : Parser Node := do
  let behind := ((← get).cursor.skip (· == .newline)).current.token
  if behind == .dot || behind == .safeDot then skipNewlines
  let here ← current
  match here.token with
  | .dot => read (.chain (← callOn read node false))
  | .safeDot => read (.chain (← callOn read node true))
  | .scope => read (.chain (← lookedUp read node))
  | .lbracket => if here.spaced then return node else read (.chain (← indexed read node))
  | _ => return node

end LaneScript.Rule
