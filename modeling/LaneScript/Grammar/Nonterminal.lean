import LaneScript.Grammar.State
import LaneScript.Tree.Basic

/-!
# The nonterminals of the grammar

The grammar is recursive in many ways: an expression holds arguments, which hold expressions, which
may hold blocks of statements.  All of this recursion goes through one point: a `Reader` reads any
nonterminal, and each rule of the grammar is a plain function that gets a reader for the parts of
what it reads.  The rules are tied together in one place, by recursion on a bound.

A rule asks its reader only after it has taken a token, so no more requests are ever nested in one
another than there are tokens.
-/

namespace LaneScript

/-- What ends a list of parameters. -/
inductive ParamsEnd where
  /-- a `|` -/
  | pipe
  /-- a closing parenthesis -/
  | paren
  /-- the start of a body, `do` or `{` -/
  | body
  /-- the end of the line -/
  | line
  deriving DecidableEq, Repr

/-- The token ends the list of parameters. -/
def ParamsEnd.isAt : ParamsEnd → Token → Bool
  | .pipe, token => token == .op (.binary .bitOr)
  | .paren, token => token == .rparen
  | .body, token => token == .lbrace || token == .word "do"
  | .line, token => token == .newline || token == .semicolon

/-- A part of a script that a rule may ask for. -/
inductive Nonterminal where
  /-- Statements up to one of the words, the end of the input or a closing bracket. -/
  | statements (stops : List String)
  /-- The modifiers behind a statement, such as `if ready`. -/
  | modifiers (node : Node)
  /-- An expression with `not`, `and` and `or`. -/
  | condition
  /-- The rest of such an expression behind its first operands. -/
  | conditionTail (left : Node)
  /-- An operand of `and` and `or`. -/
  | negation
  /-- An expression, which may be an assignment. -/
  | expression
  /-- An expression that is no assignment. -/
  | ternary
  /-- Operands joined by the operators of the levels, the loosest first. -/
  | operation (levels : List (List BinaryOp))
  /-- The rest of an operation of one level behind its first operands. -/
  | operationTail (level : List BinaryOp) (tighter : List (List BinaryOp)) (left : Node)
  /-- An operand that may have a minus before it. -/
  | signed
  /-- An operand of the power. -/
  | unary
  /-- The calls and look-ups behind a value. -/
  | chain (node : Node)
  /-- An argument of a call. -/
  | argument
  /-- The value of an argument. -/
  | argumentValue
  /-- Further arguments, each behind a comma. -/
  | moreArguments
  /-- Further items of a bracketed list, each behind a comma, up to the token. -/
  | moreItems (close : Token)
  /-- Further entries of a hash, each behind a comma. -/
  | moreEntries
  /-- Parameters. -/
  | params (stop : ParamsEnd)
  /-- The targets of a multiple assignment. -/
  | targets
  /-- Further exception classes of a clause, each behind a comma. -/
  | moreClasses
  /-- The clauses that handle exceptions. -/
  | rescues
  /-- The branches of a `case`. -/
  | whens
  /-- What follows the body of an `if`, with its `end`. -/
  | otherwise
  /-- The rest of a path of constants. -/
  | constPath (path : Node) (line : Nat)

/-- What is read for a nonterminal. -/
@[reducible] def Nonterminal.Tree : Nonterminal → Type
  | .statements _ | .moreArguments | .moreItems _ | .moreEntries | .targets | .moreClasses =>
    List Node
  | .params _ => List Param
  | .rescues => List Rescue
  | .whens => List When
  | .otherwise => Option (List Node)
  | .modifiers _ | .condition | .conditionTail _ | .negation | .expression | .ternary
  | .operation _ | .operationTail _ _ _ | .signed | .unary | .chain _ | .argument
  | .argumentValue | .constPath _ _ => Node

/-- Reads any nonterminal. -/
abbrev Reader := (n : Nonterminal) → Parser n.Tree

/-- Words that end the arguments of a command. -/
def stopWords : List String :=
  ["end", "do", "then", "and", "or", "if", "unless", "while", "until", "rescue", "ensure", "else",
    "elsif", "when", "in"]

/-- An operator that can stand before an operand and its value. -/
def Operator.startsOperand : Operator → Bool
  | .binary .sub | .binary .mul | .binary .pow | .binary .bitAnd | .bang | .tilde => true
  | _ => false

/-- The token can begin an expression. -/
def Token.startsExpression : Token → Bool
  | .newline | .semicolon | .done | .rparen | .rbracket | .rbrace | .comma | .arrow => false
  | .word text => !stopWords.contains text
  | .op operator => operator.startsOperand
  | _ => true

/-- The current token can begin an expression. -/
def Parser.startsExpression : Parser Bool := return (← current).token.startsExpression

end LaneScript
