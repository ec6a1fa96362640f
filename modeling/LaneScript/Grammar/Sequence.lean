import LaneScript.Grammar.Nonterminal

/-!
# Arguments, items and entries

The lists that stand between brackets or behind the name of a command.  The arguments of a call and
the items of an array may name their values, `key: value` or `key => value`; such pairs are gathered
into one hash, where the first of them stands.
-/

namespace LaneScript

/-- The node is a pair or a double splat, which belong into a hash. -/
def Node.isKeywordEntry (node : Node) : Bool :=
  match node.form with
  | .pair _ _ | .doubleSplat _ => true
  | _ => false

/-- Gathers the pairs and double splats among some arguments into one hash without braces, which
takes the place of the first of them. -/
def groupKeywords : List Node → List Node
  | [] => []
  | arg :: others =>
    if arg.isKeywordEntry then
      ⟨.hash (arg :: others.filter Node.isKeywordEntry) false, arg.line⟩
        :: others.filter (!·.isKeywordEntry)
    else arg :: groupKeywords others

/-- The pair of a key and a value, on the given line. -/
def Node.pair (key value : Node) (line : Nat) : Node := ⟨.pair key value, line⟩

/-- The token can begin the first argument of a command, a call without parentheses: blank space is
before it, and where it could also be an operator between two operands, none behind it. -/
def Located.startsArgument (here next : Located) : Bool :=
  match here.token with
  | .int _ | .bigInt _ | .float _ | .str _ | .command _ | .symbol _ | .label _ | .words _ _
  | .regex _ _ | .var _ _ | .const _ | .lambda | .lbracket | .lparen => here.spaced
  | .word text => here.spaced && !stopWords.contains text
  | .scope => here.spaced && !next.spaced
  | .op operator => operator.startsOperand && here.spaced && !next.spaced
  | _ => false

namespace Rule

open LaneScript.Parser

/-- Further arguments, each behind a comma. -/
def moreArguments (read : Reader) : Parser (List Node) := do
  if ← eat .comma then
    skipNewlines
    let arg ← read .argument
    return arg :: (← read .moreArguments)
  else return []

/-- Further items, each behind a comma, up to the closing token; a comma may be last. -/
def moreItems (read : Reader) (close : Token) : Parser (List Node) := do
  skipNewlines
  if ← eat .comma then
    skipNewlines
    if ← isAt close then return []
    let item ← read .argument
    return item :: (← read (.moreItems close))
  else return []

/-- The items of a bracketed list, behind its opening bracket, with the closing one. -/
def items (read : Reader) (close : Token) (closeText : String) : Parser (List Node) :=
  allowingDo do
    skipNewlines
    let found ←
      if ← isAt close then pure []
      else do
        let item ← read .argument
        pure (item :: (← read (.moreItems close)))
    expect close closeText
    return groupKeywords found

/-- The arguments of a command. -/
def commandArguments (read : Reader) : Parser (List Node) :=
  leavingDo do
    let arg ← read .argument
    return groupKeywords (arg :: (← read .moreArguments))

/-- An argument of a command can start here. -/
def startsArgument : Parser Bool := return (← current).startsArgument (← peek 1)

/-- The arguments behind a name, in parentheses or as those of a command. -/
def arguments? (read : Reader) : Parser (Option (List Node)) := do
  if ← isAtCallParen then
    advance
    return some (← items read .rparen ")")
  else if ← startsArgument then return some (← commandArguments read)
  else return none

/-- An entry of a hash. -/
def entry (read : Reader) : Parser Node := do
  let here ← current
  if let .label key := here.token then
    advance
    skipNewlines
    let value ← read .argumentValue
    return .pair ⟨.sym key, here.line⟩ value here.line
  else if ← eatOp (.binary .pow) then
    return ⟨.doubleSplat (← read .ternary), here.line⟩
  else
    let key ← read .ternary
    skipNewlines
    expect .arrow "=>"
    skipNewlines
    let value ← read .argumentValue
    return .pair key value here.line

/-- Further entries of a hash, each behind a comma; a comma may be last. -/
def moreEntries (read : Reader) : Parser (List Node) := do
  skipNewlines
  if ← eat .comma then
    skipNewlines
    if ← isAt .rbrace then return []
    let found ← entry read
    return found :: (← read .moreEntries)
  else return []

/-- The entries of a hash, behind its opening brace, with the closing one. -/
def entries (read : Reader) : Parser (List Node) :=
  allowingDo do
    skipNewlines
    let found ←
      if ← isAt .rbrace then pure []
      else do
        let first ← entry read
        pure (first :: (← read .moreEntries))
    expect .rbrace "\x7d"
    return found

end Rule
end LaneScript
