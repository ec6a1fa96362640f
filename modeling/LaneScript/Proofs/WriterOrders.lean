import LaneScript.Proofs.Positions
import LaneScript.Proofs.TreeLines

/-!
# Writing with a kept indentation

A tree can also be written by a writer that keeps the indentation of its line as a count, and gets
orders: to write a text, to begin a line, to go one step in or one step out.  To go out from the
margin would be out of range.

The orders of a tree go out as often as they go in, wherever one looks: `node_writes` says that they
write the text of the tree at any indentation, and leave the indentation as it was.
-/

namespace LaneScript.Positions

/-- The text written so far, and the indentation of the line. -/
structure Writer where
  text : String
  indent : Nat
  deriving DecidableEq, Repr

/-- What a writer can be told to do. -/
inductive Order where
  | push (text : String)
  | newline
  | goIn
  | goOut
  deriving DecidableEq, Repr

/-- What a writer does at one order. -/
def Order.carryOut (w : Writer) : Order → Checked Empty Writer
  | .push text => .ok { w with text := w.text ++ text }
  | .newline => .ok { w with text := w.text ++ lineBreak w.indent }
  | .goIn => .ok { w with indent := w.indent + 1 }
  | .goOut => do return { w with indent := ← countDown w.indent }

/-- What a writer does at one order after another. -/
def carryOut (orders : List Order) (w : Writer) : Checked Empty Writer :=
  orders.foldlM Order.carryOut w

/-! ### Orders for the parts of a tree -/

/-- Items with commas between them. -/
def listOrders (items : List (List Order)) : List Order := [.push ", "].intercalate items

/-- Statements on one line. -/
def inlineOrders (statements : List (List Order)) : List Order :=
  [.push "; "].intercalate statements

/-- The statements of a body, one step further in, and the start of the line behind them. -/
def bodyOrders (statements : List (List Order)) : List Order :=
  (if statements.isEmpty then []
    else [.goIn, .newline] ++ [.newline].intercalate statements ++ [.goOut]) ++ [.newline]

/-- What is in parentheses. -/
def parenOrders (orders : List Order) : List Order := [.push "("] ++ orders ++ [.push ")"]

/-- What is in parentheses if it needs them. -/
def parenOrdersIf (needed : Bool) (orders : List Order) : List Order :=
  if needed then parenOrders orders else orders

/-- Arguments or parameters in parentheses; without any, nothing. -/
def argumentsOrders (items : List (List Order)) : List Order :=
  if items.isEmpty then [] else parenOrders (listOrders items)

mutual

/-- The orders to write a node. -/
def nodeOrders : Node → List Order
  | ⟨form, _⟩ => formOrders form

/-- The orders to write a form. -/
def formOrders : Form → List Order
  | .atom atom => [.push atom.text]
  | .int value => [.push (toString value)]
  | .bigInt text => [.push text]
  | .float value => [.push value.literalText]
  | .str content => [.push (stringText content)]
  | .template quote segments =>
    [.push quote.char.toString] ++ segmentsOrders quote.char segments ++
      [.push quote.char.toString]
  | .sym name => [.push (symbolText name)]
  | .regex source flags => [.push "/", .push source, .push "/", .push flags]
  | .array items => [.push "["] ++ listOrders (nodesOrders items) ++ [.push "]"]
  | .hash entries braced =>
    if !braced then listOrders (nodesOrders entries)
    else if entries.isEmpty then [.push "\x7b\x7d"]
    else [.push "\x7b "] ++ listOrders (nodesOrders entries) ++ [.push " \x7d"]
  | .pair key value =>
    (match key.labelKey? with
      | some name => [.push name, .push ": "]
      | none => nodeOrders key ++ [.push " => "]) ++ nodeOrders value
  | .range low high exclusive =>
    parenOrders (optionOrders low ++ [.push (if exclusive then "..." else "..")] ++
      optionOrders high)
  | .splat value => [.push "*"] ++ nodeOrders value
  | .doubleSplat value => [.push "**"] ++ nodeOrders value
  | .blockPass value => [.push "&"] ++ optionOrders value
  | .localVar name => [.push name]
  | .var sigil name => [.push (sigil.spell name)]
  | .const none name => [.push name]
  | .const (some scope) name => nodeOrders scope ++ [.push "::"] ++ [.push name]
  | .call none name args _ => [.push name] ++ argumentsOrders (nodesOrders args)
  | .call (some receiver) name args safe =>
    parenOrdersIf receiver.needsParensAsReceiver (nodeOrders receiver) ++
      [.push (if safe then "&." else ".")] ++ [.push name] ++ argumentsOrders (nodesOrders args)
  | .index receiver args =>
    parenOrdersIf receiver.needsParensAsReceiver (nodeOrders receiver) ++
      [.push "["] ++ listOrders (nodesOrders args) ++ [.push "]"]
  | .block call params body =>
    nodeOrders call ++ [.push " do"] ++
      (if params.isEmpty then []
        else [.push " |"] ++ listOrders (paramsOrders params) ++ [.push "|"]) ++
      bodyOrders (nodesOrders body) ++ [.push "end"]
  | .lambda params body =>
    [.push "->"] ++ argumentsOrders (paramsOrders params) ++ [.push " do"] ++
      bodyOrders (nodesOrders body) ++ [.push "end"]
  | .yield args => [.push "yield"] ++ argumentsOrders (nodesOrders args)
  | .super none => [.push "super"]
  | .super (some args) => [.push "super"] ++ parenOrders (listOrders (nodesOrders args))
  | .assign target value => nodeOrders target ++ [.push " = "] ++ nodeOrders value
  | .opAssign target op value =>
    nodeOrders target ++ [.push " "] ++ [.push op.text] ++ [.push "= "] ++ nodeOrders value
  | .multiAssign targets value =>
    listOrders (nodesOrders targets) ++ [.push " = "] ++ nodeOrders value
  | .logical connective left right =>
    parenOrders (nodeOrders left ++ [.push " "] ++ [.push connective.text] ++ [.push " "] ++
      nodeOrders right)
  | .not operand =>
    [.push "!"] ++ parenOrdersIf operand.needsParensAsOperand (nodeOrders operand)
  | .binary op left right =>
    parenOrders (parenOrdersIf (op == .pow && left.needsParensAsReceiver) (nodeOrders left) ++
      [.push " "] ++ [.push op.text] ++ [.push " "] ++ nodeOrders right)
  | .unary op operand =>
    [.push op.text] ++ parenOrdersIf operand.needsParensAsOperand (nodeOrders operand)
  | .defined operand => [.push "defined?"] ++ parenOrders (nodeOrders operand)
  | .paren body => parenOrders (inlineOrders (nodesOrders body))
  | .conditional false condition body otherwise =>
    [.push "if "] ++ nodeOrders condition ++ bodyOrders (nodesOrders body) ++
      otherwiseOrders otherwise
  | .conditional true condition body otherwise =>
    [.push "unless "] ++ nodeOrders condition ++ bodyOrders (nodesOrders body) ++
      clauseOrders "else" otherwise ++ [.push "end"]
  | .ternary condition whenTrue whenFalse =>
    parenOrders (nodeOrders condition ++ [.push " ? "] ++ nodeOrders whenTrue ++ [.push " : "] ++
      nodeOrders whenFalse)
  | .loop negated condition body =>
    [.push (if negated then "until " else "while ")] ++ nodeOrders condition ++
      bodyOrders (nodesOrders body) ++ [.push "end"]
  | .forEach binder iterated body =>
    [.push "for "] ++ nodeOrders binder ++ [.push " in "] ++ nodeOrders iterated ++
      bodyOrders (nodesOrders body) ++ [.push "end"]
  | .caseOf none whens otherwise =>
    [.push "case"] ++ [.newline] ++ whensOrders whens ++ clauseOrders "else" otherwise ++
      [.push "end"]
  | .caseOf (some subject) whens otherwise =>
    [.push "case"] ++ ([.push " "] ++ nodeOrders subject) ++ [.newline] ++ whensOrders whens ++
      clauseOrders "else" otherwise ++ [.push "end"]
  | .guarded body rescues otherwise ensure =>
    [.push "begin"] ++ bodyOrders (nodesOrders body) ++ rescuesOrders rescues ++
      clauseOrders "else" otherwise ++ clauseOrders "ensure" ensure ++ [.push "end"]
  | .jump jump none => [.push jump.text]
  | .jump jump (some value) => [.push jump.text] ++ ([.push " "] ++ nodeOrders value)
  | .method none name params body =>
    [.push "def "] ++ [.push name] ++ argumentsOrders (paramsOrders params) ++
      bodyOrders (nodesOrders body) ++ [.push "end"]
  | .method (some singleton) name params body =>
    [.push "def "] ++ (nodeOrders singleton ++ [.push "."]) ++ [.push name] ++
      argumentsOrders (paramsOrders params) ++ bodyOrders (nodesOrders body) ++ [.push "end"]
  | .classDef path none body =>
    [.push "class "] ++ nodeOrders path ++ bodyOrders (nodesOrders body) ++ [.push "end"]
  | .classDef path (some superclass) body =>
    [.push "class "] ++ nodeOrders path ++ ([.push " < "] ++ nodeOrders superclass) ++
      bodyOrders (nodesOrders body) ++ [.push "end"]
  | .moduleDef path body =>
    [.push "module "] ++ nodeOrders path ++ bodyOrders (nodesOrders body) ++ [.push "end"]

/-- The orders to write each node. -/
def nodesOrders : List Node → List (List Order)
  | [] => []
  | node :: nodes => nodeOrders node :: nodesOrders nodes

/-- The orders to write a node that may be there. -/
def optionOrders : Option Node → List Order
  | none => []
  | some node => nodeOrders node

/-- The orders to write a keyword and its statements, or nothing. -/
def clauseOrders (keyword : String) : Option (List Node) → List Order
  | none => []
  | some nodes => [.push keyword] ++ bodyOrders (nodesOrders nodes)

/-- The orders to write what follows the body of an `if`. -/
def otherwiseOrders : Option (List Node) → List Order
  | none => [.push "end"]
  | some [⟨.conditional false condition body otherwise, _⟩] =>
    [.push "elsif "] ++ nodeOrders condition ++ bodyOrders (nodesOrders body) ++
      otherwiseOrders otherwise
  | some body => [.push "else"] ++ bodyOrders (nodesOrders body) ++ [.push "end"]

/-- The orders to write the pieces of a literal between the given quotes. -/
def segmentsOrders (quote : Char) : List Segment → List Order
  | [] => []
  | .text content :: others => [.push (escape quote content)] ++ segmentsOrders quote others
  | .code body :: others =>
    [.push "#\x7b"] ++ inlineOrders (nodesOrders body) ++ [.push "\x7d"] ++
      segmentsOrders quote others

/-- The orders to write the branches of a `case`. -/
def whensOrders : List When → List Order
  | [] => []
  | ⟨conditions, body⟩ :: others =>
    [.push "when "] ++ listOrders (nodesOrders conditions) ++ bodyOrders (nodesOrders body) ++
      whensOrders others

/-- The orders to write the clauses that handle exceptions. -/
def rescuesOrders : List Rescue → List Order
  | [] => []
  | ⟨classes, none, body⟩ :: others =>
    [.push "rescue"] ++
      (if classes.isEmpty then [] else [.push " "] ++ listOrders (nodesOrders classes)) ++
      bodyOrders (nodesOrders body) ++ rescuesOrders others
  | ⟨classes, some binder, body⟩ :: others =>
    [.push "rescue"] ++
      (if classes.isEmpty then [] else [.push " "] ++ listOrders (nodesOrders classes)) ++
      ([.push " => "] ++ nodeOrders binder) ++ bodyOrders (nodesOrders body) ++
      rescuesOrders others

/-- The orders to write a parameter. -/
def paramOrders : Param → List Order
  | .required name => [.push name]
  | .optional name default => [.push name] ++ [.push " = "] ++ nodeOrders default
  | .rest name => [.push "*"] ++ [.push (name.getD "")]
  | .keyword name => [.push name] ++ [.push ":"]
  | .optionalKeyword name default => [.push name] ++ [.push ": "] ++ nodeOrders default
  | .keywordRest name => [.push "**"] ++ [.push (name.getD "")]
  | .block name => [.push "&"] ++ [.push name]
  | .destructured params => parenOrders (listOrders (paramsOrders params))

/-- The orders to write each parameter. -/
def paramsOrders : List Param → List (List Order)
  | [] => []
  | param :: params => paramOrders param :: paramsOrders params

end

/-- The text and the indentation behind the last statement of a script. -/
def writeScript (script : List Node) : Checked Empty Writer :=
  carryOut ([.newline].intercalate (nodesOrders script)) ⟨"", 0⟩

/-! ### What orders write -/

/-- At the given indentation the orders write the text, and the indentation is the same again. -/
def Writes (indent : Nat) (orders : List Order) (text : String) : Prop :=
  ∀ written : String, carryOut orders ⟨written, indent⟩ = .ok ⟨written ++ text, indent⟩

section Writes

variable {indent : Nat} {orders others : List Order} {text other : String}
  {items : List (List Order)} {found : List String}

theorem carryOut_append (orders others : List Order) (w : Writer) :
    carryOut (orders ++ others) w = carryOut orders w >>= carryOut others :=
  List.foldlM_append

theorem writes_nil : Writes indent [] "" := fun written => by
  rw [String.append_empty]
  rfl

theorem writes_push (text : String) : Writes indent [.push text] text := fun _ => rfl

theorem writes_newline : Writes indent [.newline] (lineBreak indent) := fun _ => rfl

/-- What is ordered one after another is written so. -/
theorem Writes.append (h : Writes indent orders text) (h' : Writes indent others other) :
    Writes indent (orders ++ others) (text ++ other) := by
  intro written
  rw [carryOut_append, h written]
  exact (h' (written ++ text)).trans (by rw [String.append_assoc])

/-- Items with something between them. -/
theorem Writes.intercalate (hsep : Writes indent orders text)
    (h : List.Forall₂ (Writes indent) items found) :
    Writes indent (orders.intercalate items) (text.intercalate found) := by
  induction h with
  | nil => exact writes_nil
  | cons hitem hitems ih =>
    cases hitems with
    | nil => simpa using hitem
    | cons hnext hothers =>
      rw [List.intercalate_cons_cons, String.intercalate_cons_cons]
      exact (hitem.append hsep).append ih

/-- The items with commas between them. -/
theorem writes_list (h : List.Forall₂ (Writes indent) items found) :
    Writes indent (listOrders items) (listText found) :=
  (writes_push ", ").intercalate h

theorem writes_inline (h : List.Forall₂ (Writes indent) items found) :
    Writes indent (inlineOrders items) ("; ".intercalate found) :=
  (writes_push "; ").intercalate h

theorem Writes.inParens (h : Writes indent orders text) :
    Writes indent (parenOrders orders) (inParens text) :=
  ((writes_push "(").append h).append (writes_push ")")

theorem Writes.inParensIf (needed : Bool) (h : Writes indent orders text) :
    Writes indent (parenOrdersIf needed orders) (inParensIf needed text) := by
  cases needed with
  | false => exact h
  | true => exact h.inParens

theorem writes_arguments (h : List.Forall₂ (Writes indent) items found) :
    Writes indent (argumentsOrders items) (argumentsText found) := by
  cases h with
  | nil => exact writes_nil
  | cons hitem hitems => exact (writes_list (.cons hitem hitems)).inParens

theorem join_lines (separator line : String) (lines : List String) :
    String.join ((line :: lines).map (separator ++ ·)) =
      separator ++ separator.intercalate (line :: lines) := by
  induction lines generalizing line with
  | nil => simp
  | cons next lines ih =>
    rw [List.map_cons, String.join_cons, ih, String.intercalate_cons_cons]
    simp only [String.append_assoc]

/-- What goes in once comes out once. -/
theorem Writes.inside (h : Writes (indent + 1) orders text) :
    Writes indent ([.goIn] ++ orders ++ [.goOut]) text := by
  intro written
  rw [carryOut_append, carryOut_append]
  change (carryOut orders ⟨written, indent + 1⟩ >>= carryOut [.goOut]) = _
  rw [h written]
  rfl

/-- A body is written on lines of its own, one step further in. -/
theorem writes_body (h : List.Forall₂ (Writes (indent + 1)) items found) :
    Writes indent (bodyOrders items) (bodyText indent found) := by
  refine Writes.append ?_ writes_newline
  cases h with
  | nil => exact writes_nil
  | cons hitem hitems =>
    rw [join_lines]
    exact (writes_newline.append (writes_newline.intercalate (.cons hitem hitems))).inside

/-- The classes of a clause, if it names any. -/
theorem writes_classes {classes : List Node}
    (h : List.Forall₂ (Writes indent) (nodesOrders classes) (texts indent classes)) :
    Writes indent
      (if classes.isEmpty then [] else [.push " "] ++ listOrders (nodesOrders classes))
      (if classes.isEmpty then "" else " " ++ listText (texts indent classes)) := by
  split
  · exact writes_nil
  · exact (writes_push " ").append (writes_list h)

end Writes

theorem otherwiseOrders_some {body : List Node}
    (h : ∀ condition body' otherwise line,
      body ≠ [⟨.conditional false condition body' otherwise, line⟩]) :
    otherwiseOrders (some body) =
      [.push "else"] ++ bodyOrders (nodesOrders body) ++ [.push "end"] := by
  unfold otherwiseOrders
  split
  next heq => cases heq
  next condition body' otherwise line heq =>
    exact absurd (Option.some.inj heq) (h condition body' otherwise line)
  next heq =>
    cases heq
    rfl

mutual

/-- The orders to write a node write its text. -/
theorem node_writes (indent : Nat) :
    ∀ node : Node, Writes indent (nodeOrders node) (node.text indent)
  | ⟨form, _⟩ => form_writes indent form
termination_by structural x => x

/-- One case for each form, by the orders for its parts. -/
theorem form_writes (indent : Nat) :
    ∀ form : Form, Writes indent (formOrders form) (form.text indent)
  | .atom _ | .int _ | .bigInt _ | .float _ | .str _ | .sym _ | .localVar _ | .var _ _ =>
    writes_push _
  | .regex source flags =>
    (((writes_push "/").append (writes_push source)).append (writes_push "/")).append
      (writes_push flags)
  | .template quote segments =>
    ((writes_push _).append (segments_writes indent quote.char segments)).append (writes_push _)
  | .array items =>
    ((writes_push "[").append (writes_list (nodes_write indent items))).append (writes_push "]")
  | .hash entries false => writes_list (nodes_write indent entries)
  | .hash [] true => writes_push _
  | .hash (entry :: entries) true =>
    ((writes_push _).append (writes_list (nodes_write indent (entry :: entries)))).append
      (writes_push _)
  | .pair key value => by
    refine Writes.append ?_ (node_writes indent value)
    cases key.labelKey? with
    | some name => exact (writes_push name).append (writes_push ": ")
    | none => exact (node_writes indent key).append (writes_push " => ")
  | .range low high exclusive =>
    (((option_writes indent low).append (writes_push _)).append
      (option_writes indent high)).inParens
  | .splat value => (writes_push "*").append (node_writes indent value)
  | .doubleSplat value => (writes_push "**").append (node_writes indent value)
  | .blockPass value => (writes_push "&").append (option_writes indent value)
  | .const none name => writes_nil.append (writes_push name)
  | .const (some scope) name =>
    ((node_writes indent scope).append (writes_push "::")).append (writes_push name)
  | .call none name args _ => (writes_push name).append (writes_arguments (nodes_write indent args))
  | .call (some receiver) name args safe =>
    ((((node_writes indent receiver).inParensIf _).append (writes_push _)).append
      (writes_push name)).append (writes_arguments (nodes_write indent args))
  | .index receiver args =>
    ((((node_writes indent receiver).inParensIf _).append (writes_push "[")).append
      (writes_list (nodes_write indent args))).append (writes_push "]")
  | .block call [] body =>
    (((((node_writes indent call).append (writes_push " do")).append writes_nil).append
      (writes_body (nodes_write (indent + 1) body))).append (writes_push "end") :)
  | .block call (param :: params) body =>
    ((((node_writes indent call).append (writes_push " do")).append
      (((writes_push " |").append (writes_list (params_write indent (param :: params)))).append
        (writes_push "|"))).append
      (writes_body (nodes_write (indent + 1) body))).append (writes_push "end")
  | .lambda params body =>
    ((((writes_push "->").append (writes_arguments (params_write indent params))).append
      (writes_push " do")).append (writes_body (nodes_write (indent + 1) body))).append
      (writes_push "end")
  | .yield args => (writes_push "yield").append (writes_arguments (nodes_write indent args))
  | .super none => writes_push "super"
  | .super (some args) =>
    (writes_push "super").append (writes_list (nodes_write indent args)).inParens
  | .assign target value =>
    ((node_writes indent target).append (writes_push " = ")).append (node_writes indent value)
  | .opAssign target op value =>
    ((((node_writes indent target).append (writes_push " ")).append (writes_push op.text)).append
      (writes_push "= ")).append (node_writes indent value)
  | .multiAssign targets value =>
    ((writes_list (nodes_write indent targets)).append (writes_push " = ")).append
      (node_writes indent value)
  | .logical connective left right =>
    (((((node_writes indent left).append (writes_push " ")).append
      (writes_push connective.text)).append (writes_push " ")).append
      (node_writes indent right)).inParens
  | .not operand => (writes_push "!").append ((node_writes indent operand).inParensIf _)
  | .binary op left right =>
    ((((((node_writes indent left).inParensIf _).append (writes_push " ")).append
      (writes_push op.text)).append (writes_push " ")).append (node_writes indent right)).inParens
  | .unary op operand => (writes_push op.text).append ((node_writes indent operand).inParensIf _)
  | .defined operand => (writes_push "defined?").append (node_writes indent operand).inParens
  | .paren body => (writes_inline (nodes_write indent body)).inParens
  | .conditional false condition body otherwise =>
    (((writes_push "if ").append (node_writes indent condition)).append
      (writes_body (nodes_write (indent + 1) body))).append (otherwise_writes indent otherwise)
  | .conditional true condition body otherwise =>
    ((((writes_push "unless ").append (node_writes indent condition)).append
      (writes_body (nodes_write (indent + 1) body))).append
      (clause_writes indent "else" otherwise)).append (writes_push "end")
  | .ternary condition whenTrue whenFalse =>
    (((((node_writes indent condition).append (writes_push " ? ")).append
      (node_writes indent whenTrue)).append (writes_push " : ")).append
      (node_writes indent whenFalse)).inParens
  | .loop negated condition body =>
    (((writes_push _).append (node_writes indent condition)).append
      (writes_body (nodes_write (indent + 1) body))).append (writes_push "end")
  | .forEach binder iterated body =>
    (((((writes_push "for ").append (node_writes indent binder)).append
      (writes_push " in ")).append (node_writes indent iterated)).append
      (writes_body (nodes_write (indent + 1) body))).append (writes_push "end")
  | .caseOf none whens otherwise =>
    ((((((writes_push "case").append writes_nil).append writes_newline).append
      (whens_write indent whens)).append (clause_writes indent "else" otherwise)).append
      (writes_push "end") :)
  | .caseOf (some subject) whens otherwise =>
    (((((writes_push "case").append ((writes_push " ").append (node_writes indent subject))).append
      writes_newline).append (whens_write indent whens)).append
      (clause_writes indent "else" otherwise)).append (writes_push "end")
  | .guarded body rescues otherwise ensure =>
    (((((writes_push "begin").append (writes_body (nodes_write (indent + 1) body))).append
      (rescues_write indent rescues)).append (clause_writes indent "else" otherwise)).append
      (clause_writes indent "ensure" ensure)).append (writes_push "end")
  | .jump jump none => (writes_push jump.text).append writes_nil
  | .jump jump (some value) =>
    (writes_push jump.text).append ((writes_push " ").append (node_writes indent value))
  | .method none name params body =>
    (((((writes_push "def ").append writes_nil).append (writes_push name)).append
      (writes_arguments (params_write indent params))).append
      (writes_body (nodes_write (indent + 1) body))).append (writes_push "end")
  | .method (some singleton) name params body =>
    (((((writes_push "def ").append
      ((node_writes indent singleton).append (writes_push "."))).append (writes_push name)).append
      (writes_arguments (params_write indent params))).append
      (writes_body (nodes_write (indent + 1) body))).append (writes_push "end")
  | .classDef path none body => by
    -- the text has an empty piece in place of the superclass
    have hhead := ((writes_push "class ").append (node_writes indent path)).append writes_nil
    rw [List.append_nil] at hhead
    exact (hhead.append (writes_body (nodes_write (indent + 1) body))).append (writes_push "end")
  | .classDef path (some superclass) body =>
    ((((writes_push "class ").append (node_writes indent path)).append
      ((writes_push " < ").append (node_writes indent superclass))).append
      (writes_body (nodes_write (indent + 1) body))).append (writes_push "end")
  | .moduleDef path body =>
    (((writes_push "module ").append (node_writes indent path)).append
      (writes_body (nodes_write (indent + 1) body))).append (writes_push "end")
termination_by structural x => x

theorem nodes_write (indent : Nat) :
    ∀ nodes : List Node, List.Forall₂ (Writes indent) (nodesOrders nodes) (texts indent nodes)
  | [] => .nil
  | node :: nodes => .cons (node_writes indent node) (nodes_write indent nodes)
termination_by structural x => x

theorem option_writes (indent : Nat) :
    ∀ node : Option Node, Writes indent (optionOrders node) ((text? indent node).getD "")
  | none => writes_nil
  | some node => node_writes indent node
termination_by structural x => x

theorem clause_writes (indent : Nat) (keyword : String) : ∀ nodes : Option (List Node),
    Writes indent (clauseOrders keyword nodes)
      (clauseText indent keyword (texts? (indent + 1) nodes))
  | none => writes_nil
  | some nodes => (writes_push keyword).append (writes_body (nodes_write (indent + 1) nodes))
termination_by structural x => x

theorem otherwise_writes (indent : Nat) : ∀ nodes : Option (List Node),
    Writes indent (otherwiseOrders nodes) (otherwiseText indent nodes)
  | none => writes_push "end"
  | some [] => ((writes_push "else").append (writes_body .nil)).append (writes_push "end")
  | some (first :: second :: others) => by
    rw [otherwiseOrders_some (by simp), otherwiseText_some (by simp)]
    exact ((writes_push "else").append
      (writes_body (nodes_write (indent + 1) (first :: second :: others)))).append
      (writes_push "end")
  -- a conditional alone goes on as `elsif`, so the form decides
  | some [⟨form, line⟩] => by
    have hother := ((writes_push "else").append
      (writes_body (nodes_write (indent + 1) [⟨form, line⟩]))).append (writes_push "end")
    cases form with
    | conditional negated condition body otherwise =>
      cases negated with
      | true => exact hother
      | false =>
        exact (((writes_push "elsif ").append (node_writes indent condition)).append
          (writes_body (nodes_write (indent + 1) body))).append (otherwise_writes indent otherwise)
    | _ => exact hother
termination_by structural x => x

theorem segments_writes (indent : Nat) (quote : Char) : ∀ segments : List Segment,
    Writes indent (segmentsOrders quote segments) (segmentsText indent quote segments)
  | [] => writes_nil
  | .text _ :: others => (writes_push _).append (segments_writes indent quote others)
  | .code body :: others =>
    (((writes_push _).append (writes_inline (nodes_write indent body))).append
      (writes_push _)).append (segments_writes indent quote others)
termination_by structural x => x

theorem whens_write (indent : Nat) : ∀ whens : List When,
    Writes indent (whensOrders whens) (whensText indent whens)
  | [] => writes_nil
  | ⟨conditions, body⟩ :: others =>
    (((writes_push "when ").append (writes_list (nodes_write indent conditions))).append
      (writes_body (nodes_write (indent + 1) body))).append (whens_write indent others)
termination_by structural x => x

theorem rescues_write (indent : Nat) : ∀ rescues : List Rescue,
    Writes indent (rescuesOrders rescues) (rescuesText indent rescues)
  | [] => writes_nil
  | ⟨classes, none, body⟩ :: others => by
    have hhead := ((writes_push "rescue").append
      (writes_classes (nodes_write indent classes))).append writes_nil
    rw [List.append_nil] at hhead
    exact (hhead.append (writes_body (nodes_write (indent + 1) body))).append
      (rescues_write indent others)
  | ⟨classes, some binder, body⟩ :: others =>
    ((((writes_push "rescue").append (writes_classes (nodes_write indent classes))).append
      ((writes_push " => ").append (node_writes indent binder))).append
      (writes_body (nodes_write (indent + 1) body))).append (rescues_write indent others)
termination_by structural x => x

theorem param_writes (indent : Nat) : ∀ param : Param,
    Writes indent (paramOrders param) (param.text indent)
  | .required name => writes_push name
  | .optional name default =>
    ((writes_push name).append (writes_push " = ")).append (node_writes indent default)
  | .rest _ => (writes_push "*").append (writes_push _)
  | .keyword name => (writes_push name).append (writes_push ":")
  | .optionalKeyword name default =>
    ((writes_push name).append (writes_push ": ")).append (node_writes indent default)
  | .keywordRest _ => (writes_push "**").append (writes_push _)
  | .block name => (writes_push "&").append (writes_push name)
  | .destructured params => (writes_list (params_write indent params)).inParens
termination_by structural x => x

theorem params_write (indent : Nat) : ∀ params : List Param,
    List.Forall₂ (Writes indent) (paramsOrders params) (paramTexts indent params)
  | [] => .nil
  | param :: params => .cons (param_writes indent param) (params_write indent params)
termination_by structural x => x

end

/-- A script is written as its text, and ends at the margin. -/
theorem writeScript_eq (script : List Node) :
    writeScript script = .ok ⟨renderScript script, 0⟩ := by
  have hwrites := writes_newline.intercalate (nodes_write 0 script) ""
  rw [String.empty_append] at hwrites
  exact hwrites

end LaneScript.Positions
