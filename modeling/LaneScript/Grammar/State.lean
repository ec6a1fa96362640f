import LaneScript.Fault

/-!
# The state of a reader of tokens

A reader of the grammar walks over the tokens and never back.  Beside its place it keeps what the
meaning of later tokens depends on: the local variables in scope, which tell a variable from a call;
whether a `do` belongs to an enclosing loop; whether a `|` closes a list of parameters; and how
deeply the expression is nested.

The combinators at the end, `nested`, `withScope`, `allowingDo`, `leavingDo` and `closedByPipe`,
change one of these for the time of another reader and then put it back, also when that reader
fails.
-/

namespace LaneScript

/-! ### The place -/

/-- The current token and those ahead of it.  Behind the last token nothing comes: it stays
current. -/
structure Cursor where
  current : Located
  ahead : List Located
  deriving DecidableEq, Repr, Inhabited

namespace Cursor

/-- The first of some tokens; no tokens are an empty script. -/
def ofTokens : List Located → Cursor
  | [] => ⟨⟨.done, 1, true⟩, []⟩
  | first :: others => ⟨first, others⟩

/-- The last token. -/
def last (cursor : Cursor) : Located := cursor.ahead.getLast?.getD cursor.current

/-- The token that is the given number of places ahead. -/
def peek (cursor : Cursor) : Nat → Located
  | 0 => cursor.current
  | offset + 1 => cursor.ahead[offset]?.getD cursor.last

/-- One token further, if there is one. -/
def advance (cursor : Cursor) : Cursor :=
  match cursor.ahead with
  | [] => cursor
  | next :: others => ⟨next, others⟩

/-- The first place from a token on where the class ends. -/
def skipFrom (skipped : Token → Bool) (current : Located) : List Located → Cursor
  | [] => ⟨current, []⟩
  | next :: others =>
    if skipped current.token then skipFrom skipped next others else ⟨current, next :: others⟩

/-- The first place from here on where the class of tokens ends. -/
def skip (skipped : Token → Bool) (cursor : Cursor) : Cursor :=
  skipFrom skipped cursor.current cursor.ahead

/-- The strings that stand side by side from a token on, and the place behind them. -/
def stringsFrom (current : Located) : List Located → List (List StringPart) × Cursor
  | [] => ([], ⟨current, []⟩)
  | next :: others =>
    match current.token with
    | .str parts =>
      let (more, cursor) := stringsFrom next others
      (parts :: more, cursor)
    | _ => ([], ⟨current, next :: others⟩)

/-- The strings that stand side by side from here on, and the place behind them. -/
def strings (cursor : Cursor) : List (List StringPart) × Cursor :=
  stringsFrom cursor.current cursor.ahead

end Cursor

/-! ### Local variables -/

/-- The local variables of one body.  A block sees those of the bodies around it; a method, a class
or a module, whose scope is hard, does not. -/
structure Scope where
  names : List String
  hard : Bool
  deriving DecidableEq, Repr, Inhabited

namespace Scope

/-- A scope without variables. -/
def empty (hard : Bool) : Scope := ⟨[], hard⟩

/-- Adds a variable. -/
def declare (scope : Scope) (name : String) : Scope :=
  if scope.names.contains name then scope else { scope with names := name :: scope.names }

/-- The variable is seen from the innermost of the scopes. -/
def sees (name : String) : List Scope → Bool
  | [] => false
  | scope :: outer => scope.names.contains name || (!scope.hard && sees name outer)

/-- Adds a variable to the innermost scope. -/
def declareIn (name : String) : List Scope → List Scope
  | [] => []
  | scope :: outer => scope.declare name :: outer

/-- Adds to the innermost scope the variables of another's innermost one. -/
def absorb (inner : List Scope) : List Scope → List Scope
  | [] => []
  | scope :: outer =>
    match inner with
    | [] => scope :: outer
    | found :: _ => found.names.foldr (fun name scope => scope.declare name) scope :: outer

end Scope

/-! ### The reader -/

/-- The state of a reader. -/
structure State where
  file : String
  cursor : Cursor
  /-- The scopes, the innermost first. -/
  scopes : List Scope
  /-- How many enclosing constructs claim a `do` for themselves. -/
  claimsDo : Nat
  /-- A `|` closes the list of parameters that is being read. -/
  pipeCloses : Bool
  /-- The nesting of the expression. -/
  depth : Nat
  deriving DecidableEq, Repr, Inhabited

/-- The state at the first of some tokens of a file. -/
def State.start (file : String) (tokens : List Located) (scopes : List Scope) (depth : Nat) :
    State :=
  ⟨file, .ofTokens tokens, scopes, 0, false, depth⟩

/-- Reads something from the tokens, or fails on a line.  A failure keeps the state. -/
abbrev Parser := EStateM Failure State

namespace Parser

/-- What a reader comes to from a state: what it returns or why it fails, and the state then. -/
def outcome {α : Type} (p : Parser α) (s : State) : EStateM.Result Failure State α :=
  EStateM.run p s

/-- Runs a reader from a state.  What is left of the state after a failure is dropped. -/
def run {α : Type} (p : Parser α) (s : State) : Except Failure (α × State) :=
  match p.outcome s with
  | .ok a s' => .ok (a, s')
  | .error failure _ => .error failure

/-- What a reader returns from a state. -/
def run' {α : Type} (p : Parser α) (s : State) : Except Failure α := (p.run s).map Prod.fst

/-- What was found elsewhere, or the failure there. -/
def lift {α : Type} : Except Failure α → Parser α
  | .ok a => pure a
  | .error failure => throw failure

/-- The current token. -/
def current : Parser Located := return (← get).cursor.current

/-- The token that is the given number of places ahead. -/
def peek (offset : Nat) : Parser Located := return (← get).cursor.peek offset

/-- The line of the current token. -/
def line : Parser Nat := return (← current).line

/-- Goes one token further. -/
def advance : Parser Unit := modify fun s => { s with cursor := s.cursor.advance }

/-- Takes the current token. -/
def next : Parser Token := do
  let here ← current
  advance
  return here.token

/-- Fails on the line of the current token. -/
def fail {α : Type} (fault : Fault) : Parser α := do
  throw ⟨(← get).file, ← line, fault⟩

/-- Fails because the current token cannot stand here. -/
def unexpected {α : Type} : Parser α := do fail (.unexpected (← current).token)

/-- Fails because something else has to stand in the place of the current token. -/
def expected {α : Type} (what : Expectation) : Parser α := do
  fail (.expected what (← current).token)

/-- The current token is the given one. -/
def isAt (token : Token) : Parser Bool := return (← current).token == token

/-- The current token is an opening parenthesis with nothing before it. -/
def isAtCallParen : Parser Bool := do
  let here ← current
  return here.token == .lparen && !here.spaced

/-- Takes the given token if it is the current one. -/
def eat (token : Token) : Parser Bool := do
  if ← isAt token then
    advance
    return true
  else return false

/-- Takes the given word if it is the current token. -/
def eatWord (word : String) : Parser Bool := eat (.word word)

/-- Takes the given operator if it is the current token. -/
def eatOp (operator : Operator) : Parser Bool := eat (.op operator)

/-- Takes the given token, which has to be the current one; `text` names it. -/
def expect (token : Token) (text : String) : Parser Unit := do
  if ← eat token then return () else expected (.mark text)

/-- Takes the given word, which has to be the current token. -/
def expectWord (word : String) : Parser Unit := expect (.word word) word

/-- Takes a word. -/
def takeWord : Parser String := do
  match (← current).token with
  | .word text =>
    advance
    return text
  | _ => expected .identifier

/-- Passes over line ends. -/
def skipNewlines : Parser Unit :=
  modify fun s => { s with cursor := s.cursor.skip (· == .newline) }

/-- A line end or a semicolon. -/
def isTerminator (token : Token) : Bool := token == .newline || token == .semicolon

/-- Passes over line ends and semicolons. -/
def skipTerminators : Parser Unit :=
  modify fun s => { s with cursor := s.cursor.skip isTerminator }

/-- Makes a name a local variable of the innermost scope. -/
def declare (name : String) : Parser Unit :=
  modify fun s => { s with scopes := Scope.declareIn name s.scopes }

/-- The name is a local variable. -/
def isLocal (name : String) : Parser Bool := return Scope.sees name (← get).scopes

/-! ### Readers in a changed state -/

/-- One less than a number of levels; none can be left where none was entered. -/
def countDown : Nat → Parser Nat
  | 0 => fail .unbalanced
  | levels + 1 => return levels

/-- Reads one level deeper. -/
def nested {α : Type} (inner : Parser α) : Parser α := do
  if maxNesting ≤ (← get).depth then fail .nestedTooDeep
  modify fun s => { s with depth := s.depth + 1 }
  try inner
  finally
    let outer ← countDown (← get).depth
    modify fun s => { s with depth := outer }

/-- Reads in a new innermost scope. -/
def withScope {α : Type} (hard : Bool) (inner : Parser α) : Parser α := do
  modify fun s => { s with scopes := Scope.empty hard :: s.scopes }
  try inner finally modify fun s => { s with scopes := s.scopes.tail }

/-- Reads where a `do` opens a block again, as between brackets. -/
def allowingDo {α : Type} (inner : Parser α) : Parser α := do
  let claims := (← get).claimsDo
  modify fun s => { s with claimsDo := 0 }
  try inner finally modify fun s => { s with claimsDo := claims }

/-- Reads where a `do` is left to the construct around it. -/
def leavingDo {α : Type} (inner : Parser α) : Parser α := do
  modify fun s => { s with claimsDo := s.claimsDo + 1 }
  try inner
  finally
    let outer ← countDown (← get).claimsDo
    modify fun s => { s with claimsDo := outer }

/-- Reads where a `|` ends the list of parameters. -/
def closedByPipe {α : Type} (inner : Parser α) : Parser α := do
  let closes := (← get).pipeCloses
  modify fun s => { s with pipeCloses := true }
  try inner finally modify fun s => { s with pipeCloses := closes }

end Parser
end LaneScript
