import LaneScript.Grammar.Nonterminal

/-!
# Bodies, parameters and blocks

A body that ends in `end` may have clauses behind its statements: `rescue` for exceptions, `else`
for none, and `ensure` in any case.  A block is a body with parameters, in braces or between `do`
and `end`; only the second form takes clauses.
-/

namespace LaneScript.Rule

open LaneScript.Parser

/-! ### Bodies with clauses -/

/-- The words that end the statements of a body with clauses. -/
def clauseWords : List String := ["rescue", "else", "ensure", "end"]

/-- No exception class can start at the token. -/
def endsClasses : Token → Bool
  | .newline | .semicolon | .arrow | .done => true
  | token => token == .word "then"

/-- Further exception classes, each behind a comma. -/
def moreClasses (read : Reader) : Parser (List Node) := do
  if ← eat .comma then
    skipNewlines
    if endsClasses (← current).token then return []
    let found ← read .ternary
    return found :: (← read .moreClasses)
  else return []

/-- The variable that takes an exception. -/
def rescueBinder : Parser Node := do
  let line ← line
  match ← next with
  | .word name =>
    declare name
    return ⟨.localVar name, line⟩
  | .var .instanceLevel name => return ⟨.var .instanceLevel name, line⟩
  | .var .global name => return ⟨.var .global name, line⟩
  | other => fail (.expected .rescueVariable other)

/-- A clause that handles exceptions, behind its keyword. -/
def rescueClause (read : Reader) : Parser Rescue := do
  let classes ←
    if endsClasses (← current).token then pure []
    else do
      let first ← read .ternary
      pure (first :: (← read .moreClasses))
  let binder ← if ← eat .arrow then pure (some (← rescueBinder)) else pure none
  let _ ← eatWord "then"
  return ⟨classes, binder, ← read (.statements clauseWords)⟩

/-- The clauses that handle exceptions. -/
def rescues (read : Reader) : Parser (List Rescue) := do
  if ← eatWord "rescue" then
    let clause ← rescueClause read
    return clause :: (← read .rescues)
  else return []

/-- The statements behind a keyword, if it is there, up to one of the words. -/
def statementsBehind? (read : Reader) (keyword : String) (stops : List String) :
    Parser (Option (List Node)) := do
  if ← eatWord keyword then return some (← read (.statements stops)) else return none

/-- A body with its clauses, up to its `end` and with it. -/
structure Clauses where
  body : List Node
  rescues : List Rescue
  otherwise : Option (List Node)
  ensure : Option (List Node)

/-- The body and its clauses as one form. -/
def Clauses.form (clauses : Clauses) : Form :=
  .guarded clauses.body clauses.rescues clauses.otherwise clauses.ensure

/-- The body has no clauses. -/
def Clauses.isPlain (clauses : Clauses) : Bool :=
  clauses.rescues.isEmpty && clauses.otherwise.isNone && clauses.ensure.isNone

/-- Reads a body with its clauses. -/
def clauses (read : Reader) : Parser Clauses := do
  let body ← read (.statements clauseWords)
  let rescues ← read .rescues
  let otherwise ← statementsBehind? read "else" ["ensure", "end"]
  let ensure ← statementsBehind? read "ensure" ["end"]
  expectWord "end"
  return ⟨body, rescues, otherwise, ensure⟩

/-- A body up to its `end`.  With clauses it is the one statement that holds them. -/
def bodyToEnd (read : Reader) : Parser (List Node) := do
  let line ← line
  let found ← clauses read
  return if found.isPlain then found.body else [⟨found.form, line⟩]

/-! ### Parameters -/

/-- A name that may be there. -/
def optionalName : Parser (Option String) := do
  match (← current).token with
  | .word name =>
    advance
    return some name
  | _ => return none

/-- No default value stands behind the name of a keyword parameter. -/
def endsKeyword : Token → Bool
  | .comma | .rparen | .newline | .semicolon | .op (.binary .bitOr) => true
  | _ => false

/-- The parameters between parentheses, behind the opening one. -/
def parenParams (read : Reader) : Parser (List Param) := do
  let found ← read (.params .paren)
  expect .rparen ")"
  return found

/-- One parameter. -/
def param (read : Reader) : Parser Param := do
  if ← eatOp (.binary .mul) then return .rest (← optionalName)
  else if ← eatOp (.binary .pow) then return .keywordRest (← optionalName)
  else if ← eatOp (.binary .bitAnd) then return .block (← takeWord)
  else if ← eat .lparen then return .destructured (← parenParams read)
  else if let .label name := (← current).token then
    advance
    if endsKeyword (← current).token then return .keyword name
    else return .optionalKeyword name (← read .ternary)
  else
    let name ← takeWord
    if ← eatOp .assign then return .optional name (← read .ternary) else return .required name

/-- Parameters up to their end, which is left.  Each name becomes a local variable. -/
def params (read : Reader) (stop : ParamsEnd) : Parser (List Param) := do
  skipNewlines
  if stop.isAt (← current).token then return []
  let first ← param read
  if let some name := first.name? then declare name
  skipNewlines
  if ← eat .comma then return first :: (← read (.params stop)) else return [first]

/-! ### Blocks -/

/-- A body between braces, behind the opening one. -/
def bracedBody (read : Reader) : Parser (List Node) := do
  let body ← allowingDo (read (.statements []))
  expect .rbrace "\x7d"
  return body

/-- The parameters between bars at the start of a block, if there are any. -/
def blockParams (read : Reader) : Parser (List Param) := do
  if ← eatOp (.binary .or) then return []
  else if ← eatOp (.binary .bitOr) then
    let found ← closedByPipe (read (.params .pipe))
    expect (.op (.binary .bitOr)) "|"
    return found
  else return []

/-- The block of a call, which starts at the current token. -/
def block (read : Reader) (call : Node) : Parser Node := do
  let braces ← isAt .lbrace
  advance
  withScope false do
    let params ← blockParams read
    let body ← if braces then bracedBody read else allowingDo (bodyToEnd read)
    return ⟨.block call params body, call.line⟩

/-- A lambda, behind its arrow. -/
def lambda (read : Reader) (line : Nat) : Parser Node :=
  withScope false do
    let params ← if ← eat .lparen then parenParams read else read (.params .body)
    let body ←
      if ← eat .lbrace then bracedBody read
      else do
        expectWord "do"
        allowingDo (bodyToEnd read)
    return ⟨.lambda params body, line⟩

end LaneScript.Rule
