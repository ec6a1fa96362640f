import LaneScript.Grammar.Operation

/-!
# Statements

A statement is an expression with `not`, `and` and `or`, or an assignment to several targets, and
any number of modifiers behind it.
-/

namespace LaneScript

/-- The token can be a target of a multiple assignment. -/
def Token.isTarget : Token → Bool
  | .word text => !stopWords.contains text
  | .var _ _ => true
  | _ => false

/-- The tokens start with several targets and the sign of an assignment; `several` tells that a
target is before them. -/
def announcesTargets (several : Bool) : List Located → Bool
  | ⟨.op (.binary .mul), _, _⟩ :: ⟨.word _, _, _⟩ :: ⟨.comma, _, _⟩ :: others =>
    announcesTargets true others
  | ⟨.op (.binary .mul), _, _⟩ :: ⟨.word _, _, _⟩ :: ⟨.op .assign, _, _⟩ :: _ => several
  | target :: ⟨.comma, _, _⟩ :: others => target.token.isTarget && announcesTargets true others
  | target :: ⟨.op .assign, _, _⟩ :: _ => target.token.isTarget && several
  | _ => false

/-- What a modifier makes of a statement and of its operand. -/
def modified? (word : String) (node operand : Node) : Option Form :=
  match word with
  | "if" => some (.conditional false operand [node] none)
  | "unless" => some (.conditional true operand [node] none)
  | "while" => some (.loop false operand [node])
  | "until" => some (.loop true operand [node])
  | "rescue" => some (.guarded [node] [⟨[], none, [operand]⟩] none none)
  | _ => none

/-- The words that can stand behind a statement as modifiers. -/
def modifierWords : List String := ["if", "unless", "while", "until", "rescue"]

/-- The connective that a word stands for. -/
def connective? : Token → Option Connective
  | .word "and" => some .and
  | .word "or" => some .or
  | _ => none

namespace Rule

open LaneScript.Parser

/-! ### Conditions -/

/-- An operand of `and` and `or`. -/
def negation (read : Reader) : Parser Node := do
  let line ← line
  if ← eatWord "not" then return ⟨.not (← nested (read .negation)), line⟩ else expression read

/-- An expression with `not`, `and` and `or`. -/
def condition (read : Reader) : Parser Node := do read (.conditionTail (← negation read))

/-- The rest of such an expression behind its first operands. -/
def conditionTail (read : Reader) (left : Node) : Parser Node := do
  let here ← current
  match connective? here.token with
  | some connective =>
    advance
    skipNewlines
    let right ← read .negation
    read (.conditionTail ⟨.logical connective left right, here.line⟩)
  | none => return left

/-! ### Multiple assignment -/

/-- One target of a multiple assignment. -/
def oneTarget : Parser Node := do
  let line ← line
  let splat ← eatOp (.binary .mul)
  let node : Node ← match ← next with
    | .word name => do
      declare name
      pure ⟨.localVar name, line⟩
    | .var sigil name => pure ⟨.var sigil name, line⟩
    | other => fail (.invalidTargetToken other)
  return if splat then ⟨.splat node, line⟩ else node

/-- The targets of a multiple assignment. -/
def targets (read : Reader) : Parser (List Node) := do
  let first ← oneTarget
  if ← eat .comma then return first :: (← read .targets) else return [first]

/-- A multiple assignment.  Several values are an array. -/
def multiAssign (read : Reader) : Parser Node := do
  let line ← line
  let places ← targets read
  expect (.op .assign) "="
  skipNewlines
  let first ← read .expression
  let others ← read .moreArguments
  let value := if others.isEmpty then first else ⟨.array (first :: others), first.line⟩
  return ⟨.multiAssign places value, line⟩

/-! ### Statements -/

/-- The modifiers behind a statement. -/
def modifiers (read : Reader) (node : Node) : Parser Node := do
  let here ← current
  match here.token with
  | .word text =>
    if modifierWords.contains text then
      advance
      let operand ← read .condition
      match modified? text node operand with
      | some form => read (.modifiers ⟨form, here.line⟩)
      | none => return node
    else return node
  | _ => return node

/-- A statement. -/
def statement (read : Reader) : Parser Node := do
  let cursor := (← get).cursor
  let node ←
    if announcesTargets false (cursor.current :: cursor.ahead) then multiAssign read
    else condition read
  read (.modifiers node)

/-- The token ends a list of statements. -/
def endsStatements (stops : List String) : Token → Bool
  | .done | .rbrace | .rparen => true
  | .word text => stops.contains text
  | _ => false

/-- Statements up to one of the words, the end of the input or a closing bracket, which are left.
Line ends and semicolons divide them. -/
def statements (read : Reader) (stops : List String) : Parser (List Node) := do
  skipTerminators
  if endsStatements stops (← current).token then return []
  let first ← statement read
  let behind := (← current).token
  if !isTerminator behind && !endsStatements stops behind then unexpected
  return first :: (← read (.statements stops))

end Rule
end LaneScript
