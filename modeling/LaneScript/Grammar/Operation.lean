import LaneScript.Grammar.Primary

/-!
# Operations

The operators from the tightest to the loosest: those in front of an operand, the power, the minus,
the levels of `BinaryOp.levels`, the dots of a range, the ternary, and the assignments.  The levels
bind to the left; the power, the ternary and the assignments bind to the right.
-/

namespace LaneScript

/-- The operation of a binary operator on two operands. -/
def BinaryOp.join (op : BinaryOp) (left right : Node) : Form :=
  match op with
  | .or => .logical .or left right
  | .and => .logical .and left right
  | op => .binary op left right

/-- The literal that a number with a minus before it is. -/
def Token.negated? : Token → Option Form
  | .int value => some (.int (-value))
  | .float value => some (.float value.neg)
  | _ => none

/-- What an operator assigns: a value, or the result of a binary operation on the old value. -/
def Operator.assignment? : Operator → Option (Node → Node → Form)
  | .assign => some .assign
  | .compound op => some fun target value => .opAssign target op value
  | _ => none

namespace Rule

open LaneScript.Parser

/-! ### Operators in front of an operand, and the power -/

/-- A primary expression with what is chained to it. -/
def operand (read : Reader) : Parser Node := do read (.chain (← primary read))

/-- An operand of the power. -/
def unary (read : Reader) : Parser Node := do
  let line ← line
  if ← eatOp .bang then return ⟨.not (← nested (read .unary)), line⟩
  else if ← eatOp .tilde then return ⟨.unary .complement (← nested (read .unary)), line⟩
  else if ← eatOp (.binary .add) then return ⟨.unary .plus (← nested (read .unary)), line⟩
  else operand read

/-- The power of a value that has been read, if there is one. -/
def power (read : Reader) (base : Node) : Parser Node := do
  let line ← line
  if ← eatOp (.binary .pow) then
    skipNewlines
    return ⟨.binary .pow base (← nested (read .signed)), line⟩
  else return base

/-- An operand of the levels.  A minus that touches a number is part of it, unless a power
follows: `-2 ** 2` is the opposite of a power. -/
def signed (read : Reader) : Parser Node := do
  let here ← current
  if here.token != .op (.binary .sub) then power read (← unary read)
  else
    let number ← peek 1
    let literal :=
      if number.spaced || (← peek 2).token == .op (.binary .pow) then none
      else number.token.negated?
    advance
    match literal with
    | some form =>
      advance
      power read (← read (.chain ⟨form, here.line⟩))
    | none => return ⟨.unary .minus (← nested (read .signed)), here.line⟩

/-! ### The levels -/

/-- Operands joined by the operators of the levels, the loosest first. -/
def operation (read : Reader) : List (List BinaryOp) → Parser Node
  | [] => signed read
  | level :: tighter => do
    let first ← operation read tighter
    read (.operationTail level tighter first)

/-- The operator of the level that stands here. -/
def joining? (level : List BinaryOp) : Parser (Option BinaryOp) := do
  match (← current).token with
  | .op (.binary op) =>
    if level.contains op && !(op == .bitOr && (← get).pipeCloses) then return some op
    else return none
  | _ => return none

/-- The rest of an operation of one level behind its first operands. -/
def operationTail (read : Reader) (level : List BinaryOp) (tighter : List (List BinaryOp))
    (left : Node) : Parser Node := do
  let line ← line
  match ← joining? level with
  | some op =>
    advance
    skipNewlines
    let right ← read (.operation tighter)
    read (.operationTail level tighter ⟨op.join left right, line⟩)
  | none => return left

/-! ### Ranges, the ternary and assignments -/

/-- An operation or a range, whose end may be open. -/
def range (read : Reader) : Parser Node := do
  let low ← operation read BinaryOp.levels
  let here ← current
  match here.token with
  | .op (.range exclusive) =>
    advance
    let high ←
      if ← startsExpression then pure (some (← read (.operation BinaryOp.levels))) else pure none
    return ⟨.range (some low) high exclusive, here.line⟩
  | _ => return low

/-- An expression that is no assignment. -/
def ternary (read : Reader) : Parser Node := do
  let condition ← range read
  let line ← line
  if ← eatOp .question then
    skipNewlines
    let whenTrue ← nested (read .ternary)
    skipNewlines
    if !(← eatOp .colon) then expected .ternaryColon
    skipNewlines
    let whenFalse ← nested (read .ternary)
    return ⟨.ternary condition whenTrue whenFalse, line⟩
  else return condition

/-- The target of an assignment.  A bare name becomes a local variable. -/
def target (node : Node) : Parser Node := do
  match node.form with
  | .call none name [] _ =>
    declare name
    return ⟨.localVar name, node.line⟩
  | .call (some _) _ [] _ | .localVar _ | .var _ _ | .const _ _ | .index _ _ => return node
  | _ => fail .invalidTarget

/-- What the operator that stands here assigns. -/
def assigning? : Parser (Option (Node → Node → Form)) := do
  match (← current).token with
  | .op operator => return operator.assignment?
  | _ => return none

/-- An expression, which may be an assignment. -/
def expression (read : Reader) : Parser Node :=
  nested do
    let left ← ternary read
    match ← assigning? with
    | some assign =>
      let place ← target left
      advance
      skipNewlines
      return ⟨assign place (← read .expression), left.line⟩
    | none => return left

/-! ### Arguments -/

/-- The value of an argument, which may be negated by a word. -/
def argumentValue (read : Reader) : Parser Node := do
  if ← isAt (.word "not") then primary read else expression read

/-- An argument of a call: a value, a pair, or what a splat or a block stands for. -/
def argument (read : Reader) : Parser Node := do
  let here ← current
  if ← eatOp (.binary .mul) then return ⟨.splat (← read .ternary), here.line⟩
  else if ← eatOp (.binary .pow) then return ⟨.doubleSplat (← read .ternary), here.line⟩
  else if ← eatOp (.binary .bitAnd) then
    let value ← if ← startsExpression then pure (some (← read .ternary)) else pure none
    return ⟨.blockPass value, here.line⟩
  else if let .label key := here.token then
    advance
    skipNewlines
    let value ← read .argumentValue
    return .pair ⟨.sym key, here.line⟩ value here.line
  else
    let value ← argumentValue read
    if ← eat .arrow then
      skipNewlines
      let mapped ← read .argumentValue
      return .pair value mapped here.line
    else return value

end Rule
end LaneScript
