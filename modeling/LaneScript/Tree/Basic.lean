import LaneScript.Number.Binary64
import LaneScript.Token.Basic

/-!
# Syntax trees

A script is a list of statements, and a statement is a node: a form and the line it starts on.  The
tree knows nothing of lanes and platforms; it is the general tree of the script language, from
which the document of a script is built and which can be written out as source text again.
-/

namespace LaneScript

open Number (Binary64)

/-- A value that a keyword denotes, or a jump that takes no value. -/
inductive Atom where
  | nilValue | trueValue | falseValue | selfValue | redo | retry
  deriving DecidableEq, Repr, Inhabited

/-- A jump: `return`, `next` or `break`. -/
inductive Jump where
  | leave | next | stop
  deriving DecidableEq, Repr, Inhabited

/-- How the two operands of a logical operation are joined. -/
inductive Connective where
  | and | or
  deriving DecidableEq, Repr, Inhabited

/-- An operator in front of its operand; negation is a form of its own. -/
inductive UnaryOp where
  | minus | plus | complement
  deriving DecidableEq, Repr, Inhabited

/-- The quotes around a literal with interpolated code. -/
inductive Quote where
  | double
  /-- Backticks, around a command for the shell. -/
  | command
  deriving DecidableEq, Repr, Inhabited

mutual

/-- A part of a syntax tree and the line it starts on. -/
structure Node where
  form : Form
  line : Nat

/-- The forms of a node. -/
inductive Form where
  -- literals
  | atom (atom : Atom)
  | int (value : Int)
  /-- An integer beyond 64 bits, as it is written. -/
  | bigInt (text : String)
  | float (value : Binary64)
  | str (content : String)
  /-- A string with interpolated code, or a command. -/
  | template (quote : Quote) (segments : List Segment)
  | sym (name : String)
  | regex (source flags : String)
  | array (items : List Node)
  /-- Key-value pairs.  The trailing keyword arguments of a call have no braces. -/
  | hash (entries : List Node) (braced : Bool)
  | pair (key value : Node)
  | range (low high : Option Node) (exclusive : Bool)
  | splat (value : Node)
  | doubleSplat (value : Node)
  /-- An argument that stands for a block; without a value it passes the current one on. -/
  | blockPass (value : Option Node)
  -- names
  | localVar (name : String)
  | var (sigil : Sigil) (name : String)
  | const (scope : Option Node) (name : String)
  -- calls
  | call (receiver : Option Node) (name : String) (args : List Node) (safe : Bool)
  | index (receiver : Node) (args : List Node)
  /-- A call with a block attached. -/
  | block (call : Node) (params : List Param) (body : List Node)
  | lambda (params : List Param) (body : List Node)
  | yield (args : List Node)
  /-- A call of the overridden method; without arguments it passes the current ones on. -/
  | super (args : Option (List Node))
  -- assignments
  | assign (target value : Node)
  | opAssign (target : Node) (op : BinaryOp) (value : Node)
  | multiAssign (targets : List Node) (value : Node)
  -- operations
  | logical (connective : Connective) (left right : Node)
  | not (operand : Node)
  | binary (op : BinaryOp) (left right : Node)
  | unary (op : UnaryOp) (operand : Node)
  | defined (operand : Node)
  /-- Statements in parentheses, more than one. -/
  | paren (body : List Node)
  -- control
  /-- An `if`, or with `negated` an `unless`. -/
  | conditional (negated : Bool) (condition : Node) (body : List Node)
      (otherwise : Option (List Node))
  | ternary (condition whenTrue whenFalse : Node)
  /-- A `while`, or with `negated` an `until`. -/
  | loop (negated : Bool) (condition : Node) (body : List Node)
  | forEach (binder iterated : Node) (body : List Node)
  | caseOf (subject : Option Node) (whens : List When) (otherwise : Option (List Node))
  /-- A `begin` with its clauses. -/
  | guarded (body : List Node) (rescues : List Rescue) (otherwise ensure : Option (List Node))
  | jump (jump : Jump) (value : Option Node)
  -- definitions
  | method (singleton : Option Node) (name : String) (params : List Param) (body : List Node)
  | classDef (path : Node) (superclass : Option Node) (body : List Node)
  | moduleDef (path : Node) (body : List Node)

/-- One piece of a literal with interpolated code. -/
inductive Segment where
  | text (content : String)
  | code (body : List Node)

/-- One branch of a `case`. -/
structure When where
  conditions : List Node
  body : List Node

/-- One clause that handles exceptions. -/
structure Rescue where
  classes : List Node
  binder : Option Node
  body : List Node

/-- A parameter of a method, a block or a lambda. -/
inductive Param where
  | required (name : String)
  | optional (name : String) (default : Node)
  | rest (name : Option String)
  | keyword (name : String)
  | optionalKeyword (name : String) (default : Node)
  | keywordRest (name : Option String)
  | block (name : String)
  /-- A list that is taken apart. -/
  | destructured (params : List Param)

end

instance : Inhabited Node := ⟨⟨.atom .nilValue, 0⟩⟩

/-- The name that a parameter binds, if it is one name. -/
def Param.name? : Param → Option String
  | .required name | .optional name _ | .keyword name | .optionalKeyword name _ | .block name =>
    some name
  | .rest name | .keywordRest name => name
  | .destructured _ => none

namespace Node

/-- The name of a method that is called without a receiver. -/
def bareCallName? (node : Node) : Option String :=
  match node.form with
  | .call none name _ _ => some name
  | _ => none

/-- The node is a plain literal. -/
def isLiteral (node : Node) : Bool :=
  match node.form with
  | .atom .nilValue | .atom .trueValue | .atom .falseValue => true
  | .int _ | .bigInt _ | .float _ | .str _ | .sym _ => true
  | _ => false

end Node
end LaneScript
