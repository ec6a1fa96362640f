import LaneScript.Tree.Render

/-!
# Trees in messages

A message that shows a piece of a tree names its forms and their fields.
-/

namespace LaneScript

open Number (Style)
open Text (quoted)

/-- A value that may be absent, as messages show it. -/
def describeOption : Option String → String
  | none => "None"
  | some content => describeWith "Some" content

/-- Two values with a name around them, as messages show them. -/
def describePair (name first second : String) : String :=
  describeWith name (first ++ ", " ++ second)

/-- The name of an atom in messages. -/
def Atom.describe : Atom → String
  | .nilValue => "Nil" | .trueValue => "True" | .falseValue => "False" | .selfValue => "SelfRef"
  | .redo => "Redo" | .retry => "Retry"

/-- The name of a jump in messages. -/
def Jump.describe : Jump → String
  | .leave => "Return" | .next => "Next" | .stop => "Break"

mutual

/-- A node, as messages show it. -/
def Node.describe : Node → String
  | ⟨form, line⟩ => describeFields "Node" [("kind", form.describe), ("line", toString line)]

/-- A form, as messages show it. -/
def Form.describe : Form → String
  | .atom atom => atom.describe
  | .int value => describeWith "Int" (toString value)
  | .bigInt text => describeWith "BigInt" (quoted text)
  | .float value => describeWith "Float" (Style.diagnostic.text value)
  | .str content => describeWith "Str" (quoted content)
  | .template .double segments => describeWith "DStr" (describeList (describeSegments segments))
  | .template .command segments => describeWith "XStr" (describeList (describeSegments segments))
  | .sym name => describeWith "Sym" (quoted name)
  | .regex source flags =>
    describeFields "Regex" [("source", quoted source), ("flags", quoted flags)]
  | .array items => describeWith "Array" (describeList (describeNodes items))
  | .hash entries braced =>
    describeFields "Hash"
      [("pairs", describeList (describeNodes entries)), ("braced", describeBool braced)]
  | .pair key value => describeFields "Pair" [("key", key.describe), ("value", value.describe)]
  | .range low high exclusive =>
    describeFields "Range" [("lo", describeNode? low), ("hi", describeNode? high),
      ("exclusive", describeBool exclusive)]
  | .splat value => describeWith "Splat" value.describe
  | .doubleSplat value => describeWith "DoubleSplat" value.describe
  | .blockPass value => describeWith "BlockPass" (describeNode? value)
  | .localVar name => describeWith "LVar" (quoted name)
  | .var sigil name => describeWith sigil.describe (quoted (sigil.spell name))
  | .const scope name =>
    describeFields "Const" [("scope", describeNode? scope), ("name", quoted name)]
  | .call receiver name args safe =>
    describeFields "Call" [("recv", describeNode? receiver), ("name", quoted name),
      ("args", describeList (describeNodes args)), ("safe_nav", describeBool safe)]
  | .index receiver args =>
    describeFields "Index"
      [("recv", receiver.describe), ("args", describeList (describeNodes args))]
  | .block call params body =>
    describeFields "Block" [("call", call.describe),
      ("params", describeList (describeParams params)),
      ("body", describeList (describeNodes body))]
  | .lambda params body =>
    describeFields "Lambda" [("params", describeList (describeParams params)),
      ("body", describeList (describeNodes body))]
  | .yield args => describeWith "Yield" (describeList (describeNodes args))
  | .super args => describeWith "Super" (describeNodes? args)
  | .assign target value =>
    describeFields "Assign" [("target", target.describe), ("value", value.describe)]
  | .opAssign target op value =>
    describeFields "OpAssign"
      [("target", target.describe), ("op", quoted op.text), ("value", value.describe)]
  | .multiAssign targets value =>
    describeFields "MultiAssign"
      [("targets", describeList (describeNodes targets)), ("value", value.describe)]
  | .logical .and left right => describePair "And" left.describe right.describe
  | .logical .or left right => describePair "Or" left.describe right.describe
  | .not operand => describeWith "Not" operand.describe
  | .binary op left right =>
    describeFields "Binary"
      [("op", quoted op.text), ("lhs", left.describe), ("rhs", right.describe)]
  | .unary op operand =>
    describeFields "Unary" [("op", quoted op.text), ("operand", operand.describe)]
  | .defined operand => describeWith "Defined" operand.describe
  | .paren body => describeWith "Paren" (describeList (describeNodes body))
  | .conditional negated condition body otherwise =>
    describeFields (if negated then "Unless" else "If") [("cond", condition.describe),
      (if negated then "body" else "then_body", describeList (describeNodes body)),
      ("else_body", describeNodes? otherwise)]
  | .ternary condition whenTrue whenFalse =>
    describeFields "Ternary" [("cond", condition.describe), ("then_value", whenTrue.describe),
      ("else_value", whenFalse.describe)]
  | .loop negated condition body =>
    describeFields "While" [("cond", condition.describe),
      ("body", describeList (describeNodes body)), ("until", describeBool negated)]
  | .forEach binder iterated body =>
    describeFields "For" [("var", binder.describe), ("iter", iterated.describe),
      ("body", describeList (describeNodes body))]
  | .caseOf subject whens otherwise =>
    describeFields "Case" [("subject", describeNode? subject),
      ("whens", describeList (describeWhens whens)), ("else_body", describeNodes? otherwise)]
  | .guarded body rescues otherwise ensure =>
    describeFields "Begin" [("body", describeList (describeNodes body)),
      ("rescues", describeList (describeRescues rescues)),
      ("else_body", describeNodes? otherwise), ("ensure", describeNodes? ensure)]
  | .jump jump value => describeWith jump.describe (describeNode? value)
  | .method singleton name params body =>
    describeFields "Def" [("singleton", describeNode? singleton), ("name", quoted name),
      ("params", describeList (describeParams params)),
      ("body", describeList (describeNodes body))]
  | .classDef path superclass body =>
    describeFields "Class" [("path", path.describe), ("superclass", describeNode? superclass),
      ("body", describeList (describeNodes body))]
  | .moduleDef path body =>
    describeFields "Module"
      [("path", path.describe), ("body", describeList (describeNodes body))]

/-- Each node, as messages show it. -/
def describeNodes : List Node → List String
  | [] => []
  | node :: nodes => node.describe :: describeNodes nodes

/-- A node that may be absent, as messages show it. -/
def describeNode? : Option Node → String
  | none => describeOption none
  | some node => describeOption (some node.describe)

/-- Nodes that may be absent, as messages show them. -/
def describeNodes? : Option (List Node) → String
  | none => describeOption none
  | some nodes => describeOption (some (describeList (describeNodes nodes)))

/-- Each piece of a literal, as messages show it. -/
def describeSegments : List Segment → List String
  | [] => []
  | .text content :: others => describeWith "Lit" (quoted content) :: describeSegments others
  | .code body :: others =>
    describeWith "Code" (describeList (describeNodes body)) :: describeSegments others

/-- Each branch of a `case`, as messages show it. -/
def describeWhens : List When → List String
  | [] => []
  | ⟨conditions, body⟩ :: others =>
    describeFields "When" [("conds", describeList (describeNodes conditions)),
      ("body", describeList (describeNodes body))] :: describeWhens others

/-- Each clause that handles exceptions, as messages show it. -/
def describeRescues : List Rescue → List String
  | [] => []
  | ⟨classes, binder, body⟩ :: others =>
    describeFields "Rescue" [("classes", describeList (describeNodes classes)),
      ("var", describeNode? binder), ("body", describeList (describeNodes body))]
      :: describeRescues others

/-- A parameter, as messages show it. -/
def Param.describe : Param → String
  | .required name => describeWith "Req" (quoted name)
  | .optional name default => describePair "Opt" (quoted name) default.describe
  | .rest name => describeWith "Rest" (describeOption (name.map quoted))
  | .keyword name => describeWith "Key" (quoted name)
  | .optionalKeyword name default => describePair "KeyOpt" (quoted name) default.describe
  | .keywordRest name => describeWith "KeyRest" (describeOption (name.map quoted))
  | .block name => describeWith "Block" (quoted name)
  | .destructured params => describeWith "Destructure" (describeList (describeParams params))

/-- Each parameter, as messages show it. -/
def describeParams : List Param → List String
  | [] => []
  | param :: params => param.describe :: describeParams params

end

end LaneScript
