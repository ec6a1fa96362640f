import LaneScript.Grammar.Block

/-!
# Conditionals and loops

Each rule reads the rest of a construct, behind its keyword, with its `end`.
-/

namespace LaneScript.Rule

open LaneScript.Parser

/-- A condition and the `then` behind it, which may be left out. -/
def header (read : Reader) : Parser Node := do
  let condition ← read .condition
  skipTerminators
  let _ ← eatWord "then"
  return condition

/-- An `if`, or behind an `elsif` the conditional that stands for it. -/
def conditional (read : Reader) (line : Nat) : Parser Node := do
  let condition ← header read
  let body ← read (.statements ["elsif", "else", "end"])
  return ⟨.conditional false condition body (← read .otherwise), line⟩

/-- What follows the body of an `if`.  An `elsif` is a conditional that is the only statement of the
other branch. -/
def otherwise (read : Reader) : Parser (Option (List Node)) := do
  let line ← line
  if ← eatWord "elsif" then return some [← conditional read line]
  else
    let found ← statementsBehind? read "else" ["end"]
    expectWord "end"
    return found

/-- An `unless`. -/
def unlessThen (read : Reader) (line : Nat) : Parser Node := do
  let condition ← header read
  let body ← read (.statements ["else", "end"])
  let otherwise ← statementsBehind? read "else" ["end"]
  expectWord "end"
  return ⟨.conditional true condition body otherwise, line⟩

/-- A branch of a `case`, behind its keyword. -/
def whenBranch (read : Reader) : Parser When := do
  let first ← read .argument
  let others ← read .moreArguments
  skipTerminators
  let _ ← eatWord "then"
  return ⟨first :: others, ← read (.statements ["when", "else", "end"])⟩

/-- The branches of a `case`. -/
def whens (read : Reader) : Parser (List When) := do
  if ← eatWord "when" then
    let branch ← whenBranch read
    return branch :: (← read .whens)
  else return []

/-- A `case`, which has at least one branch. -/
def caseOf (read : Reader) (line : Nat) : Parser Node := do
  let subject ←
    if isTerminator (← current).token then pure none else pure (some (← read .condition))
  skipTerminators
  let branches ← read .whens
  if branches.isEmpty then expected (.mark "when")
  let otherwise ← statementsBehind? read "else" ["end"]
  expectWord "end"
  return ⟨.caseOf subject branches otherwise, line⟩

/-- What a loop tests or goes over, and the `do` that may stand behind it. -/
def loopHeader (read : Reader) : Parser Node := do
  let found ← leavingDo (read .condition)
  let _ ← eatWord "do"
  skipTerminators
  return found

/-- The body of a loop. -/
def loopBody (read : Reader) : Parser (List Node) := do
  let body ← read (.statements ["end"])
  expectWord "end"
  return body

/-- A `while`, or with `negated` an `until`. -/
def loop (read : Reader) (negated : Bool) (line : Nat) : Parser Node := do
  let condition ← loopHeader read
  return ⟨.loop negated condition (← loopBody read), line⟩

/-- A `for`. -/
def forEach (read : Reader) (line : Nat) : Parser Node := do
  let binderLine ← Parser.line
  let name ← takeWord
  declare name
  expectWord "in"
  let iterated ← loopHeader read
  return ⟨.forEach ⟨.localVar name, binderLine⟩ iterated (← loopBody read), line⟩

end LaneScript.Rule
