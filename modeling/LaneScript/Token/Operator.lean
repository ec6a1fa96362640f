/-!
# Operators

The operators of the script language fall into those that join two operands, their assigning forms
(`+=`), and a few that do neither.  The binary ones, the power apart, stand on levels of binding
strength.
-/

namespace LaneScript

/-- An operator between two operands. -/
inductive BinaryOp where
  | or | and
  | compare | equal | caseEqual | notEqual | isMatch | notMatch
  | less | lessEqual | greater | greaterEqual
  | bitOr | bitXor | bitAnd
  | shiftLeft | shiftRight
  | add | sub | mul | div | mod | pow
  deriving DecidableEq, Repr, Inhabited

namespace BinaryOp

/-- The operator as it is written. -/
def text : BinaryOp → String
  | .or => "||" | .and => "&&"
  | .compare => "<=>" | .equal => "==" | .caseEqual => "===" | .notEqual => "!="
  | .isMatch => "=~" | .notMatch => "!~"
  | .less => "<" | .lessEqual => "<=" | .greater => ">" | .greaterEqual => ">="
  | .bitOr => "|" | .bitXor => "^" | .bitAnd => "&"
  | .shiftLeft => "<<" | .shiftRight => ">>"
  | .add => "+" | .sub => "-" | .mul => "*" | .div => "/" | .mod => "%" | .pow => "**"

/-- The levels of the left-associative operators, from the loosest to the tightest.  The power
binds tighter than all of them and to the right. -/
def levels : List (List BinaryOp) := [
  [.or],
  [.and],
  [.compare, .equal, .caseEqual, .notEqual, .isMatch, .notMatch],
  [.less, .lessEqual, .greater, .greaterEqual],
  [.bitOr, .bitXor],
  [.bitAnd],
  [.shiftLeft, .shiftRight],
  [.add, .sub],
  [.mul, .div, .mod]]

/-- Every operator but the power stands on a level. -/
theorem mem_levels_iff (op : BinaryOp) : (∃ level ∈ levels, op ∈ level) ↔ op ≠ .pow := by
  cases op <;> decide

/-- No operator stands on two levels. -/
theorem nodup_levels : levels.flatten.Nodup := by decide

end BinaryOp

/-- An operator of the script language. -/
inductive Operator where
  | binary (op : BinaryOp)
  /-- The assigning form of a binary operator, such as `+=`. -/
  | compound (op : BinaryOp)
  /-- A lone `=`. -/
  | assign
  /-- The dots of a range, three of them when it leaves out its end. -/
  | range (exclusive : Bool)
  | bang | tilde | question | colon
  deriving DecidableEq, Repr, Inhabited

namespace Operator

/-- The operator as it is written. -/
def text : Operator → String
  | .binary op => op.text
  | .compound op => op.text ++ "="
  | .assign => "="
  | .range exclusive => if exclusive then "..." else ".."
  | .bang => "!" | .tilde => "~" | .question => "?" | .colon => ":"

end Operator
end LaneScript
