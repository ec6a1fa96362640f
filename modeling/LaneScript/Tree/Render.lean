import LaneScript.Number.Written
import LaneScript.Text.Words
import LaneScript.Tree.Basic

/-!
# Trees as source text

`Node.render` writes a tree as a script that reads back as the same tree.  The text has a form of
its own, whatever the script looked like: two blanks of indentation, parentheses around the
arguments of a call and around every binary operation, and double quotes around strings.

The functions take the indentation of the line they start on.  A statement may need further lines,
for the bodies in it; a body stands one step further in.
-/

namespace LaneScript

open Text (isAlphabetic isAlphanumeric isControl hexadecimal)

/-! ### Strings and symbols -/

/-- A control character by its code point, in four digits. -/
def escapeCode (c : Char) : String :=
  let digits := hexadecimal c.toNat
  "\\u" ++ "".pushn '0' (4 - digits.length) ++ digits

/-- A character inside the given quotes; `next` is the one behind it. -/
def escapeChar (quote : Char) (c : Char) (next : Option Char) : String :=
  if c == '\\' then "\\\\"
  else if c == '\n' then "\\n"
  else if c == '\t' then "\\t"
  else if c == '\r' then "\\r"
  else if c == '\x1b' then "\\e"
  else if c == '\x07' then "\\a"
  else if c == '\x08' then "\\b"
  else if c == '\x0b' then "\\v"
  else if c == '\x0c' then "\\f"
  else if c == '#' && (next == some '{' || next == some '@' || next == some '$') then "\\#"
  else if c == quote then "\\" ++ c.toString
  else if isControl c then escapeCode c
  else c.toString

/-- A text inside the given quotes. -/
def escapeChars (quote : Char) : List Char → String
  | [] => ""
  | c :: rest => escapeChar quote c rest.head? ++ escapeChars quote rest

/-- A text inside the given quotes. -/
def escape (quote : Char) (text : String) : String := escapeChars quote text.toList

/-- A text between double quotes. -/
def stringText (content : String) : String := "\"" ++ escape '"' content ++ "\""

/-- A question or exclamation mark, which may end a name. -/
def isNameMark (c : Char) : Bool := c == '?' || c == '!'

/-- The characters are a name: a letter or an underscore, more of these or digits, and at most one
mark at the end. -/
def isNameText (text : List Char) : Bool :=
  let body := Text.trimRight isNameMark text
  (text.head?.any fun c => isAlphabetic c || c == '_')
    && body.all (fun c => isAlphanumeric c || c == '_')
    && text.length - body.length ≤ 1

/-- The characters are the name of a method that assigns. -/
def isSetterText (text : List Char) : Bool :=
  text.getLast? == some '=' && isNameText text.dropLast
    && !(text.dropLast.getLast?.any isNameMark)

/-- A symbol as it is written: bare where its text is a name, else between quotes. -/
def symbolText (name : String) : String :=
  if isNameText name.toList || isSetterText name.toList then ":" ++ name
  else ":" ++ stringText name

/-! ### Lines and parentheses -/

/-- The end of a line, and the indentation of the next one. -/
def lineBreak (indent : Nat) : String := "\n" ++ "".pushn ' ' (2 * indent)

/-- The statements of a body, each on a line of its own, and the start of the line behind them. -/
def bodyText (indent : Nat) (statements : List String) : String :=
  String.join (statements.map (lineBreak (indent + 1) ++ ·)) ++ lineBreak indent

/-- Items with commas between them. -/
def listText (items : List String) : String := ", ".intercalate items

/-- A text in parentheses. -/
def inParens (text : String) : String := "(" ++ text ++ ")"

/-- A text in parentheses if it needs them. -/
def inParensIf (needed : Bool) (text : String) : String := if needed then inParens text else text

/-- A node that needs parentheses before a dot or a bracket, and as the base of a power. -/
def Node.needsParensAsReceiver (node : Node) : Bool :=
  match node.form with
  | .int value => value < 0
  | .float value => value.isNegative
  | .not _ | .unary _ _ | .assign _ _ | .opAssign _ _ _ | .conditional _ _ _ _ | .loop _ _ _
  | .caseOf _ _ _ | .defined _ | .lambda _ _ | .block _ _ _ => true
  | _ => false

/-- A node that needs parentheses behind an operator. -/
def Node.needsParensAsOperand (node : Node) : Bool :=
  match node.form with
  | .assign _ _ | .opAssign _ _ _ | .multiAssign _ _ | .conditional _ _ _ _ | .loop _ _ _
  | .caseOf _ _ _ | .block _ _ _ | .int _ | .float _ => true
  | _ => false

/-! ### Words and marks -/

/-- The keyword of an atom. -/
def Atom.text : Atom → String
  | .nilValue => "nil" | .trueValue => "true" | .falseValue => "false" | .selfValue => "self"
  | .redo => "redo" | .retry => "retry"

/-- The keyword of a jump. -/
def Jump.text : Jump → String
  | .leave => "return" | .next => "next" | .stop => "break"

/-- The operator that a connective is written as. -/
def Connective.text : Connective → String
  | .and => "&&" | .or => "||"

/-- An operator in front of its operand. -/
def UnaryOp.text : UnaryOp → String
  | .minus => "-" | .plus => "+" | .complement => "~"

/-- The quotes around a literal with code. -/
def Quote.char : Quote → Char
  | .double => '"' | .command => '\x60'

/-- A keyword and its statements, or nothing. -/
def clauseText (indent : Nat) (keyword : String) : Option (List String) → String
  | none => ""
  | some statements => keyword ++ bodyText indent statements

/-- A binary operation. -/
def operationText (op left right : String) : String := inParens (left ++ " " ++ op ++ " " ++ right)

/-- A keyword and the arguments behind it, if there are any. -/
def keywordCallText (keyword : String) : Option (List String) → String
  | none => keyword
  | some args => keyword ++ inParens (listText args)

/-- Arguments or parameters in parentheses; without any, nothing. -/
def argumentsText (items : List String) : String :=
  if items.isEmpty then "" else inParens (listText items)

/-- The key of a pair that is written with a colon. -/
def Node.labelKey? (key : Node) : Option String :=
  match key.form with
  | .sym name => if isNameText name.toList then some name else none
  | _ => none

/-! ### Nodes -/

mutual

/-- A node as source text. -/
def Node.text (indent : Nat) : Node → String
  | ⟨form, _⟩ => form.text indent

/-- A form as source text. -/
def Form.text (indent : Nat) : Form → String
  | .atom atom => atom.text
  | .int value => toString value
  | .bigInt text => text
  | .float value => value.literalText
  | .str content => stringText content
  | .template quote segments =>
    quote.char.toString ++ segmentsText indent quote.char segments ++ quote.char.toString
  | .sym name => symbolText name
  | .regex source flags => "/" ++ source ++ "/" ++ flags
  | .array items => "[" ++ listText (texts indent items) ++ "]"
  | .hash entries braced =>
    if !braced then listText (texts indent entries)
    else if entries.isEmpty then "\x7b\x7d"
    else "\x7b " ++ listText (texts indent entries) ++ " \x7d"
  | .pair key value =>
    (match key.labelKey? with
      | some name => name ++ ": "
      | none => key.text indent ++ " => ") ++ value.text indent
  | .range low high exclusive =>
    inParens ((text? indent low).getD "" ++ (if exclusive then "..." else "..")
      ++ (text? indent high).getD "")
  | .splat value => "*" ++ value.text indent
  | .doubleSplat value => "**" ++ value.text indent
  | .blockPass value => "&" ++ (text? indent value).getD ""
  | .localVar name => name
  | .var sigil name => sigil.spell name
  | .const scope name =>
    (match text? indent scope with
      | some scope => scope ++ "::"
      | none => "") ++ name
  | .call none name args _ => name ++ argumentsText (texts indent args)
  | .call (some receiver) name args safe =>
    inParensIf receiver.needsParensAsReceiver (receiver.text indent)
      ++ (if safe then "&." else ".") ++ name ++ argumentsText (texts indent args)
  | .index receiver args =>
    inParensIf receiver.needsParensAsReceiver (receiver.text indent)
      ++ "[" ++ listText (texts indent args) ++ "]"
  | .block call params body =>
    call.text indent ++ " do"
      ++ (if params.isEmpty then "" else " |" ++ listText (paramTexts indent params) ++ "|")
      ++ bodyText indent (texts (indent + 1) body) ++ "end"
  | .lambda params body =>
    "->" ++ argumentsText (paramTexts indent params) ++ " do"
      ++ bodyText indent (texts (indent + 1) body) ++ "end"
  | .yield args => "yield" ++ argumentsText (texts indent args)
  | .super args => keywordCallText "super" (texts? indent args)
  | .assign target value => target.text indent ++ " = " ++ value.text indent
  | .opAssign target op value =>
    target.text indent ++ " " ++ op.text ++ "= " ++ value.text indent
  | .multiAssign targets value =>
    listText (texts indent targets) ++ " = " ++ value.text indent
  | .logical connective left right =>
    operationText connective.text (left.text indent) (right.text indent)
  | .not operand => "!" ++ inParensIf operand.needsParensAsOperand (operand.text indent)
  | .binary op left right =>
    operationText op.text
      (inParensIf (op == .pow && left.needsParensAsReceiver) (left.text indent))
      (right.text indent)
  | .unary op operand =>
    op.text ++ inParensIf operand.needsParensAsOperand (operand.text indent)
  | .defined operand => "defined?" ++ inParens (operand.text indent)
  | .paren body => inParens ("; ".intercalate (texts indent body))
  | .conditional false condition body otherwise =>
    "if " ++ condition.text indent ++ bodyText indent (texts (indent + 1) body)
      ++ otherwiseText indent otherwise
  | .conditional true condition body otherwise =>
    "unless " ++ condition.text indent ++ bodyText indent (texts (indent + 1) body)
      ++ clauseText indent "else" (texts? (indent + 1) otherwise) ++ "end"
  | .ternary condition whenTrue whenFalse =>
    inParens (condition.text indent ++ " ? " ++ whenTrue.text indent ++ " : "
      ++ whenFalse.text indent)
  | .loop negated condition body =>
    (if negated then "until " else "while ") ++ condition.text indent
      ++ bodyText indent (texts (indent + 1) body) ++ "end"
  | .forEach binder iterated body =>
    "for " ++ binder.text indent ++ " in " ++ iterated.text indent
      ++ bodyText indent (texts (indent + 1) body) ++ "end"
  | .caseOf subject whens otherwise =>
    "case" ++ (match text? indent subject with
      | some subject => " " ++ subject
      | none => "") ++ lineBreak indent ++ whensText indent whens
      ++ clauseText indent "else" (texts? (indent + 1) otherwise) ++ "end"
  | .guarded body rescues otherwise ensure =>
    "begin" ++ bodyText indent (texts (indent + 1) body) ++ rescuesText indent rescues
      ++ clauseText indent "else" (texts? (indent + 1) otherwise)
      ++ clauseText indent "ensure" (texts? (indent + 1) ensure) ++ "end"
  | .jump jump value =>
    jump.text ++ (match text? indent value with
      | some value => " " ++ value
      | none => "")
  | .method singleton name params body =>
    "def " ++ (match text? indent singleton with
      | some singleton => singleton ++ "."
      | none => "") ++ name ++ argumentsText (paramTexts indent params)
      ++ bodyText indent (texts (indent + 1) body) ++ "end"
  | .classDef path superclass body =>
    "class " ++ path.text indent ++ (match text? indent superclass with
      | some superclass => " < " ++ superclass
      | none => "") ++ bodyText indent (texts (indent + 1) body) ++ "end"
  | .moduleDef path body =>
    "module " ++ path.text indent ++ bodyText indent (texts (indent + 1) body) ++ "end"

/-- The text of each node. -/
def texts (indent : Nat) : List Node → List String
  | [] => []
  | node :: nodes => node.text indent :: texts indent nodes

/-- The text of a node that may be there. -/
def text? (indent : Nat) : Option Node → Option String
  | none => none
  | some node => some (node.text indent)

/-- The texts of nodes that may be there. -/
def texts? (indent : Nat) : Option (List Node) → Option (List String)
  | none => none
  | some nodes => some (texts indent nodes)

/-- What follows the body of an `if`.  A single conditional is written as an `elsif`. -/
def otherwiseText (indent : Nat) : Option (List Node) → String
  | none => "end"
  | some [⟨.conditional false condition body otherwise, _⟩] =>
    "elsif " ++ condition.text indent ++ bodyText indent (texts (indent + 1) body)
      ++ otherwiseText indent otherwise
  | some body => "else" ++ bodyText indent (texts (indent + 1) body) ++ "end"

/-- The pieces of a literal between the given quotes. -/
def segmentsText (indent : Nat) (quote : Char) : List Segment → String
  | [] => ""
  | .text content :: others => escape quote content ++ segmentsText indent quote others
  | .code body :: others =>
    "#\x7b" ++ "; ".intercalate (texts indent body) ++ "\x7d" ++ segmentsText indent quote others

/-- The branches of a `case`. -/
def whensText (indent : Nat) : List When → String
  | [] => ""
  | ⟨conditions, body⟩ :: others =>
    "when " ++ listText (texts indent conditions) ++ bodyText indent (texts (indent + 1) body)
      ++ whensText indent others

/-- The clauses that handle exceptions. -/
def rescuesText (indent : Nat) : List Rescue → String
  | [] => ""
  | ⟨classes, binder, body⟩ :: others =>
    "rescue" ++ (if classes.isEmpty then "" else " " ++ listText (texts indent classes))
      ++ (match text? indent binder with
        | some binder => " => " ++ binder
        | none => "") ++ bodyText indent (texts (indent + 1) body) ++ rescuesText indent others

/-- A parameter as source text. -/
def Param.text (indent : Nat) : Param → String
  | .required name => name
  | .optional name default => name ++ " = " ++ default.text indent
  | .rest name => "*" ++ name.getD ""
  | .keyword name => name ++ ":"
  | .optionalKeyword name default => name ++ ": " ++ default.text indent
  | .keywordRest name => "**" ++ name.getD ""
  | .block name => "&" ++ name
  | .destructured params => inParens (listText (paramTexts indent params))

/-- The text of each parameter. -/
def paramTexts (indent : Nat) : List Param → List String
  | [] => []
  | param :: params => param.text indent :: paramTexts indent params

end

/-- A node as source text that starts at the left margin. -/
def Node.render (node : Node) : String := node.text 0

/-- A script: one statement on a line. -/
def renderScript (body : List Node) : String := (lineBreak 0).intercalate (texts 0 body)

/-- Statements on one line, as they stand in an interpolation. -/
def renderInline (body : List Node) : String := "; ".intercalate (texts 0 body)

end LaneScript
