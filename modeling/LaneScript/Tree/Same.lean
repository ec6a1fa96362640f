import LaneScript.Tree.Basic

/-!
# Trees that are the same but for their lines

Two trees are the same when they have the same shape and the same literals: the lines do not count,
and the two zeros of a floating-point number are one.  This is what a text that is written out and
read again has to keep.
-/

namespace LaneScript

mutual

/-- The same node, wherever it stands. -/
def Node.same : Node → Node → Bool
  | ⟨form, _⟩, other => form.same other.form

/-- The same form. -/
def Form.same : Form → Form → Bool
  | .atom a, other => match other with
    | .atom b => a == b
    | _ => false
  | .int n, other => match other with
    | .int m => n == m
    | _ => false
  | .bigInt text, other => match other with
    | .bigInt text' => text == text'
    | _ => false
  | .float x, other => match other with
    | .float y => x.same y
    | _ => false
  | .str content, other => match other with
    | .str content' => content == content'
    | _ => false
  | .template quote segments, other => match other with
    | .template quote' segments' => quote == quote' && sameSegments segments segments'
    | _ => false
  | .sym name, other => match other with
    | .sym name' => name == name'
    | _ => false
  | .regex source flags, other => match other with
    | .regex source' flags' => source == source' && flags == flags'
    | _ => false
  | .array items, other => match other with
    | .array items' => sameNodes items items'
    | _ => false
  | .hash entries braced, other => match other with
    | .hash entries' braced' => sameNodes entries entries' && braced == braced'
    | _ => false
  | .pair key value, other => match other with
    | .pair key' value' => key.same key' && value.same value'
    | _ => false
  | .range low high exclusive, other => match other with
    | .range low' high' exclusive' =>
      sameNode? low low' && sameNode? high high' && exclusive == exclusive'
    | _ => false
  | .splat value, other => match other with
    | .splat value' => value.same value'
    | _ => false
  | .doubleSplat value, other => match other with
    | .doubleSplat value' => value.same value'
    | _ => false
  | .blockPass value, other => match other with
    | .blockPass value' => sameNode? value value'
    | _ => false
  | .localVar name, other => match other with
    | .localVar name' => name == name'
    | _ => false
  | .var sigil name, other => match other with
    | .var sigil' name' => sigil == sigil' && name == name'
    | _ => false
  | .const scope name, other => match other with
    | .const scope' name' => sameNode? scope scope' && name == name'
    | _ => false
  | .call receiver name args safe, other => match other with
    | .call receiver' name' args' safe' =>
      sameNode? receiver receiver' && name == name' && sameNodes args args' && safe == safe'
    | _ => false
  | .index receiver args, other => match other with
    | .index receiver' args' => receiver.same receiver' && sameNodes args args'
    | _ => false
  | .block call params body, other => match other with
    | .block call' params' body' =>
      call.same call' && sameParams params params' && sameNodes body body'
    | _ => false
  | .lambda params body, other => match other with
    | .lambda params' body' => sameParams params params' && sameNodes body body'
    | _ => false
  | .yield args, other => match other with
    | .yield args' => sameNodes args args'
    | _ => false
  | .super args, other => match other with
    | .super args' => sameNodes? args args'
    | _ => false
  | .assign target value, other => match other with
    | .assign target' value' => target.same target' && value.same value'
    | _ => false
  | .opAssign target op value, other => match other with
    | .opAssign target' op' value' => target.same target' && op == op' && value.same value'
    | _ => false
  | .multiAssign targets value, other => match other with
    | .multiAssign targets' value' => sameNodes targets targets' && value.same value'
    | _ => false
  | .logical connective left right, other => match other with
    | .logical connective' left' right' =>
      connective == connective' && left.same left' && right.same right'
    | _ => false
  | .not operand, other => match other with
    | .not operand' => operand.same operand'
    | _ => false
  | .binary op left right, other => match other with
    | .binary op' left' right' => op == op' && left.same left' && right.same right'
    | _ => false
  | .unary op operand, other => match other with
    | .unary op' operand' => op == op' && operand.same operand'
    | _ => false
  | .defined operand, other => match other with
    | .defined operand' => operand.same operand'
    | _ => false
  | .paren body, other => match other with
    | .paren body' => sameNodes body body'
    | _ => false
  | .conditional negated condition body otherwise, other => match other with
    | .conditional negated' condition' body' otherwise' =>
      negated == negated' && condition.same condition' && sameNodes body body'
        && sameNodes? otherwise otherwise'
    | _ => false
  | .ternary condition whenTrue whenFalse, other => match other with
    | .ternary condition' whenTrue' whenFalse' =>
      condition.same condition' && whenTrue.same whenTrue' && whenFalse.same whenFalse'
    | _ => false
  | .loop negated condition body, other => match other with
    | .loop negated' condition' body' =>
      negated == negated' && condition.same condition' && sameNodes body body'
    | _ => false
  | .forEach binder iterated body, other => match other with
    | .forEach binder' iterated' body' =>
      binder.same binder' && iterated.same iterated' && sameNodes body body'
    | _ => false
  | .caseOf subject whens otherwise, other => match other with
    | .caseOf subject' whens' otherwise' =>
      sameNode? subject subject' && sameWhens whens whens' && sameNodes? otherwise otherwise'
    | _ => false
  | .guarded body rescues otherwise ensure, other => match other with
    | .guarded body' rescues' otherwise' ensure' =>
      sameNodes body body' && sameRescues rescues rescues' && sameNodes? otherwise otherwise'
        && sameNodes? ensure ensure'
    | _ => false
  | .jump jump value, other => match other with
    | .jump jump' value' => jump == jump' && sameNode? value value'
    | _ => false
  | .method singleton name params body, other => match other with
    | .method singleton' name' params' body' =>
      sameNode? singleton singleton' && name == name' && sameParams params params'
        && sameNodes body body'
    | _ => false
  | .classDef path superclass body, other => match other with
    | .classDef path' superclass' body' =>
      path.same path' && sameNode? superclass superclass' && sameNodes body body'
    | _ => false
  | .moduleDef path body, other => match other with
    | .moduleDef path' body' => path.same path' && sameNodes body body'
    | _ => false

/-- The same nodes in the same order. -/
def sameNodes : List Node → List Node → Bool
  | [], others => others.isEmpty
  | node :: nodes, others => match others with
    | [] => false
    | node' :: nodes' => node.same node' && sameNodes nodes nodes'

/-- The same node, or no node twice. -/
def sameNode? : Option Node → Option Node → Bool
  | none, other => other.isNone
  | some node, other => match other with
    | none => false
    | some node' => node.same node'

/-- The same nodes, or no nodes twice. -/
def sameNodes? : Option (List Node) → Option (List Node) → Bool
  | none, other => other.isNone
  | some nodes, other => match other with
    | none => false
    | some nodes' => sameNodes nodes nodes'

/-- The same piece of a literal. -/
def Segment.same : Segment → Segment → Bool
  | .text content, other => match other with
    | .text content' => content == content'
    | _ => false
  | .code body, other => match other with
    | .code body' => sameNodes body body'
    | _ => false

/-- The same pieces in the same order. -/
def sameSegments : List Segment → List Segment → Bool
  | [], others => others.isEmpty
  | segment :: segments, others => match others with
    | [] => false
    | segment' :: segments' => segment.same segment' && sameSegments segments segments'

/-- The same branch. -/
def When.same : When → When → Bool
  | ⟨conditions, body⟩, other => sameNodes conditions other.conditions && sameNodes body other.body

/-- The same branches in the same order. -/
def sameWhens : List When → List When → Bool
  | [], others => others.isEmpty
  | branch :: branches, others => match others with
    | [] => false
    | branch' :: branches' => branch.same branch' && sameWhens branches branches'

/-- The same clause. -/
def Rescue.same : Rescue → Rescue → Bool
  | ⟨classes, binder, body⟩, other =>
    sameNodes classes other.classes && sameNode? binder other.binder && sameNodes body other.body

/-- The same clauses in the same order. -/
def sameRescues : List Rescue → List Rescue → Bool
  | [], others => others.isEmpty
  | clause :: clauses, others => match others with
    | [] => false
    | clause' :: clauses' => clause.same clause' && sameRescues clauses clauses'

/-- The same parameter. -/
def Param.same : Param → Param → Bool
  | .required name, other => match other with
    | .required name' => name == name'
    | _ => false
  | .optional name default, other => match other with
    | .optional name' default' => name == name' && default.same default'
    | _ => false
  | .rest name, other => match other with
    | .rest name' => name == name'
    | _ => false
  | .keyword name, other => match other with
    | .keyword name' => name == name'
    | _ => false
  | .optionalKeyword name default, other => match other with
    | .optionalKeyword name' default' => name == name' && default.same default'
    | _ => false
  | .keywordRest name, other => match other with
    | .keywordRest name' => name == name'
    | _ => false
  | .block name, other => match other with
    | .block name' => name == name'
    | _ => false
  | .destructured params, other => match other with
    | .destructured params' => sameParams params params'
    | _ => false

/-- The same parameters in the same order. -/
def sameParams : List Param → List Param → Bool
  | [], others => others.isEmpty
  | param :: params, others => match others with
    | [] => false
    | param' :: params' => param.same param' && sameParams params params'

end

end LaneScript
