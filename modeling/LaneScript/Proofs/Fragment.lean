import LaneScript.Proofs.Spelling

/-!
# The trees of lane programs

A lane program is made of calls with literal arguments, of operations on them, and of blocks:
`InFragment` is this part of the script language, and `Node.height` the nesting of its trees.

`Node.spelled` gives the tokens that a tree of the fragment is written with.  They are the text that
`Node.text` writes, `spelledChars_spelled`, by induction over the predicate.
-/

namespace LaneScript

open Literal
open Text (isUppercase)
open List

variable {node : Node} {nodes : List Node}

/-! ### Names -/

/-- The words that the grammar keeps for itself. -/
def reservedWords : List String :=
  ["nil", "true", "false", "self", "redo", "retry", "if", "unless", "while", "until", "for", "case",
    "begin", "def", "class", "module", "return", "next", "break", "yield", "super", "defined?",
    "not", "end", "do", "then", "and", "or", "rescue", "ensure", "else", "elsif", "when", "in"]

/-- The name starts with a capital. -/
def isCapitalized (name : String) : Bool := (name.toList.take 1).any isUppercase

/-- The name of a method that can be called without a receiver and without arguments: an identifier,
perhaps with one mark at its end, that starts with no capital, is not reserved and does not end the
script. -/
def IsMethodName (name : String) : Prop :=
  isNameText name.toList = true ∧ isCapitalized name = false ∧ name ∉ reservedWords ∧
    name ≠ "__END__"

/-- An identifier that starts with a capital. -/
def IsConstantName (name : String) : Prop :=
  isNameText name.toList = true ∧ isCapitalized name = true

instance (name : String) : Decidable (IsMethodName name) := by
  unfold IsMethodName
  infer_instance

instance (name : String) : Decidable (IsConstantName name) := by
  unfold IsConstantName
  infer_instance

/-! ### The fragment -/

/-- What a tree of the fragment can stand for. -/
inductive Role where
  /-- a value: an argument, an operand, an item -/
  | value
  /-- a pair of a hash -/
  | entry
  /-- a statement: a value, or a call with a block -/
  | statement
  deriving DecidableEq

/-- How far names that start with a capital are used. -/
inductive Capitals where
  /-- not at all -/
  | none
  /-- for constants, and for calls that have arguments -/
  | constants
  /-- for calls without arguments too -/
  | calls
  deriving DecidableEq

/-- The trees of lane programs.  Without capitals these are the lane programs proper; the other
trees show how far names with a capital are read back. -/
inductive InFragment (capitals : Capitals) : Role → Node → Prop
  | atom {atom : Atom} (line : Nat)
      (hatom : atom ∈ [.nilValue, .trueValue, .falseValue, .selfValue]) :
      InFragment capitals .value ⟨.atom atom, line⟩
  | int {value : Int} (line : Nat) (hvalue : value.natAbs < intBound) :
      InFragment capitals .value ⟨.int value, line⟩
  | str (content : String) (line : Nat) : InFragment capitals .value ⟨.str content, line⟩
  | sym (name : String) (line : Nat) : InFragment capitals .value ⟨.sym name, line⟩
  | const {name : String} (line : Nat) (hcapitals : capitals ≠ .none)
      (hname : IsConstantName name) : InFragment capitals .value ⟨.const none name, line⟩
  | array {items : List Node} (line : Nat)
      (hitems : ∀ item ∈ items, InFragment capitals .value item) :
      InFragment capitals .value ⟨.array items, line⟩
  | hash {entries : List Node} (line : Nat)
      (hentries : ∀ entry ∈ entries, InFragment capitals .entry entry) :
      InFragment capitals .value ⟨.hash entries true, line⟩
  /-- The key is written as a label where it can be; a label has no question mark. -/
  | pair {key value : Node} (line : Nat)
      (hquestion : ∀ name, key.form = .sym name → name.toList.getLast? ≠ some '?')
      (hkey : InFragment capitals .value key) (hvalue : InFragment capitals .value value) :
      InFragment capitals .entry ⟨.pair key value, line⟩
  | call {name : String} {args : List Node} (line : Nat)
      (hname : IsMethodName name ∨
        IsConstantName name ∧ capitals ≠ .none ∧ (args = [] → capitals = .calls))
      (hargs : ∀ arg ∈ args, InFragment capitals .value arg) :
      InFragment capitals .value ⟨.call none name args false, line⟩
  /-- A call whose last argument holds the arguments that have names. -/
  | keywordCall {name : String} {args entries : List Node} (line hashLine : Nat)
      (hname : IsMethodName name ∨ IsConstantName name ∧ capitals ≠ .none)
      (hargs : ∀ arg ∈ args, InFragment capitals .value arg) (hne : entries ≠ [])
      (hentries : ∀ entry ∈ entries, InFragment capitals .entry entry) :
      InFragment capitals .value
        ⟨.call none name (args ++ [⟨.hash entries false, hashLine⟩]) false, line⟩
  | binary {op : BinaryOp} {left right : Node} (line : Nat) (hop : op ≠ .or ∧ op ≠ .and)
      (hleft : InFragment capitals .value left) (hright : InFragment capitals .value right) :
      InFragment capitals .value ⟨.binary op left right, line⟩
  | logical (connective : Connective) {left right : Node} (line : Nat)
      (hleft : InFragment capitals .value left) (hright : InFragment capitals .value right) :
      InFragment capitals .value ⟨.logical connective left right, line⟩
  | ternary {condition whenTrue whenFalse : Node} (line : Nat)
      (hcondition : InFragment capitals .value condition)
      (htrue : InFragment capitals .value whenTrue)
      (hfalse : InFragment capitals .value whenFalse) :
      InFragment capitals .value ⟨.ternary condition whenTrue whenFalse, line⟩
  | range {low high : Option Node} (exclusive : Bool) (line : Nat)
      (hbound : low ≠ none ∨ high ≠ none)
      (hlow : ∀ node ∈ low, InFragment capitals .value node)
      (hhigh : ∀ node ∈ high, InFragment capitals .value node) :
      InFragment capitals .value ⟨.range low high exclusive, line⟩
  | statement {node : Node} (hnode : InFragment capitals .value node) :
      InFragment capitals .statement node
  /-- A call with a block that takes no parameters. -/
  | block {name : String} {args body : List Node} (callLine line : Nat) (hname : IsMethodName name)
      (hcall : InFragment capitals .value ⟨.call none name args false, callLine⟩)
      (hbody : ∀ statement ∈ body, InFragment capitals .statement statement) :
      InFragment capitals .statement ⟨.block ⟨.call none name args false, callLine⟩ [] body, line⟩

/-! ### Heights -/

mutual

/-- The nesting height of a tree of the fragment.  A tree without parts has height zero; the pairs
of a hash, and the hash of the arguments that have names, are no level of their own, and neither is
the call of a block. -/
def Node.height : Node → Nat
  | ⟨form, _⟩ => form.height

/-- The nesting height of a form. -/
def Form.height : Form → Nat
  | .array items => heightOver items
  | .hash entries true => heightOver entries
  | .hash entries false => heightOf entries
  | .pair key value => max key.height value.height
  | .call _ _ args _ => heightOver args
  | .binary _ left right | .logical _ left right => max left.height right.height + 1
  | .ternary condition whenTrue whenFalse =>
    max condition.height (max whenTrue.height whenFalse.height) + 1
  | .range low high _ => max (height? low) (height? high) + 1
  | .block call _ body => max call.height (heightOver body)
  | _ => 0

/-- The greatest height of some trees; zero if there are none. -/
def heightOf : List Node → Nat
  | [] => 0
  | node :: nodes => max node.height (heightOf nodes)

/-- The height of a tree with the given parts: above the highest of them, and zero without parts. -/
def heightOver : List Node → Nat
  | [] => 0
  | node :: nodes => max (node.height + 1) (heightOver nodes)

/-- The height of a tree that may be there. -/
def height? : Option Node → Nat
  | none => 0
  | some node => node.height

end

theorem height_le_heightOf (h : node ∈ nodes) : node.height ≤ heightOf nodes := by
  induction nodes with
  | nil => simp at h
  | cons first others ih =>
    rw [heightOf]
    rcases mem_cons.1 h with rfl | h
    · exact Nat.le_max_left _ _
    · exact Nat.le_trans (ih h) (Nat.le_max_right _ _)

theorem height_lt_heightOver (h : node ∈ nodes) : node.height < heightOver nodes := by
  induction nodes with
  | nil => simp at h
  | cons first others ih =>
    rw [heightOver]
    rcases mem_cons.1 h with rfl | h
    · exact Nat.le_max_left _ _
    · exact Nat.le_trans (ih h) (Nat.le_max_right _ _)

/-! ### Spelled trees -/

/-- The token of a name. -/
def nameToken (name : String) : Token := if isCapitalized name then .const name else .word name

/-- The tokens of an integer; a minus is a token of its own. -/
def spelledInt (lead : Lead) (value : Int) : List Spelled :=
  if value < 0 then [⟨lead, .op (.binary .sub)⟩, ⟨.tight, .int value.natAbs⟩]
  else [⟨lead, .int value.natAbs⟩]

/-- Tokens between parentheses. -/
def spelledParens (lead : Lead) (inner : List Spelled) : List Spelled :=
  ⟨lead, .lparen⟩ :: (inner ++ [⟨.tight, .rparen⟩])

/-- Tokens between parentheses if they need them. -/
def spelledParensIf (needed : Bool) (inner : Lead → List Spelled) (lead : Lead) : List Spelled :=
  if needed then spelledParens lead (inner .tight) else inner lead

/-- An operation on two operands. -/
def spelledOperation (lead : Lead) (op : BinaryOp) (left right : Lead → List Spelled) :
    List Spelled :=
  spelledParens lead (left .tight ++ ⟨.blank, .op (.binary op)⟩ :: right .blank)

/-- The operator that a connective is written as. -/
def Connective.operator : Connective → BinaryOp
  | .and => .and
  | .or => .or

mutual

/-- The tokens of a tree of the fragment, the first of them behind the given lead. -/
def Node.spelled (indent : Nat) : Node → Lead → List Spelled
  | ⟨form, _⟩, lead => form.spelled indent lead

/-- The tokens of a form. -/
def Form.spelled (indent : Nat) : Form → Lead → List Spelled
  | .atom atom, lead => [⟨lead, .word atom.text⟩]
  | .int value, lead => spelledInt lead value
  | .str content, lead => [⟨lead, .str [.text content]⟩]
  | .sym name, lead => [⟨lead, .symbol name⟩]
  | .const none name, lead => [⟨lead, .const name⟩]
  | .array items, lead => ⟨lead, .lbracket⟩ :: (spelledList indent items .tight
      ++ [⟨.tight, .rbracket⟩])
  | .hash entries braced, lead =>
    if !braced then spelledList indent entries lead
    else if entries.isEmpty then [⟨lead, .lbrace⟩, ⟨.tight, .rbrace⟩]
    else ⟨lead, .lbrace⟩ :: (spelledList indent entries .blank ++ [⟨.blank, .rbrace⟩])
  | .pair key value, lead =>
    (match key.labelKey? with
      | some name => [⟨lead, .label name⟩]
      | none => key.spelled indent lead ++ [⟨.blank, .arrow⟩]) ++ value.spelled indent .blank
  | .call none name args _, lead =>
    ⟨lead, nameToken name⟩ ::
      if args.isEmpty then [] else spelledParens .tight (spelledList indent args .tight)
  | .binary op left right, lead =>
    spelledOperation lead op
      (spelledParensIf (op == .pow && left.needsParensAsReceiver) (left.spelled indent))
      (right.spelled indent)
  | .logical connective left right, lead =>
    spelledOperation lead connective.operator (left.spelled indent) (right.spelled indent)
  | .ternary condition whenTrue whenFalse, lead =>
    spelledParens lead (condition.spelled indent .tight ++ ⟨.blank, .op .question⟩ ::
      (whenTrue.spelled indent .blank ++ ⟨.blank, .op .colon⟩ :: whenFalse.spelled indent .blank))
  | .range low high exclusive, lead =>
    spelledParens lead (spelled? indent low .tight ++ ⟨.tight, .op (.range exclusive)⟩ ::
      spelled? indent high .tight)
  | .block call _ body, lead =>
    call.spelled indent lead ++ ⟨.blank, .word "do"⟩ ::
      (spelledBody (indent + 1) body (.newLine (indent + 1)) ++ [⟨.newLine indent, .word "end"⟩])
  | _, _ => []

/-- The tokens of a list with commas. -/
def spelledList (indent : Nat) : List Node → Lead → List Spelled
  | [], _ => []
  | node :: nodes, lead => node.spelled indent lead ++ spelledMore indent nodes

/-- The tokens of the further items of a list, each behind a comma. -/
def spelledMore (indent : Nat) : List Node → List Spelled
  | [] => []
  | node :: nodes => ⟨.tight, .comma⟩ :: (node.spelled indent .blank ++ spelledMore indent nodes)

/-- The tokens of statements, each but the first on a line of its own. -/
def spelledBody (indent : Nat) : List Node → Lead → List Spelled
  | [], _ => []
  | node :: nodes, lead => node.spelled indent lead ++ spelledBody indent nodes (.newLine indent)

/-- The tokens of a tree that may be there. -/
def spelled? (indent : Nat) : Option Node → Lead → List Spelled
  | none, _ => []
  | some node, lead => node.spelled indent lead

end

/-! ### The text of the spelled tokens -/

/-- The spelled tokens of a tree are its text. -/
def Writes (node : Node) : Prop :=
  ∀ indent lead,
    spelledChars (node.spelled indent lead) = lead.text.toList ++ (node.text indent).toList

theorem toList_intercalate_cons (separator text : String) (texts : List String) :
    (separator.intercalate (text :: texts)).toList =
      text.toList ++ texts.flatMap fun text => separator.toList ++ text.toList := by
  induction texts generalizing text with
  | nil => simp
  | cons next texts ih =>
    rw [String.intercalate_cons_cons, String.toList_append, String.toList_append, ih,
      flatMap_cons]
    simp only [List.append_assoc]

theorem spelledChars_spelledMore (h : ∀ node ∈ nodes, Writes node) (indent : Nat) :
    spelledChars (spelledMore indent nodes) =
      (texts indent nodes).flatMap fun text => ", ".toList ++ text.toList := by
  induction nodes with
  | nil => rfl
  | cons node nodes ih =>
    obtain ⟨hnode, hnodes⟩ := forall_mem_cons.1 h
    simp only [spelledMore, spelledChars, spelledChars_append, hnode indent .blank, ih hnodes,
      texts, flatMap_cons]
    simp [Token.spelling]

theorem spelledChars_spelledList (h : ∀ item ∈ node :: nodes, Writes item) (indent : Nat)
    (lead : Lead) :
    spelledChars (spelledList indent (node :: nodes) lead) =
      lead.text.toList ++ (listText (texts indent (node :: nodes))).toList := by
  obtain ⟨hnode, hnodes⟩ := forall_mem_cons.1 h
  rw [spelledList, spelledChars_append, hnode indent lead, spelledChars_spelledMore hnodes, texts,
    listText, toList_intercalate_cons, List.append_assoc]

/-- The texts of statements, each on a line of its own. -/
theorem spelledChars_spelledBody (h : ∀ node ∈ nodes, Writes node) (indent : Nat) :
    spelledChars (spelledBody indent nodes (.newLine indent)) =
      (texts indent nodes).flatMap fun text => (lineBreak indent).toList ++ text.toList := by
  induction nodes with
  | nil => rfl
  | cons node nodes ih =>
    obtain ⟨hnode, hnodes⟩ := forall_mem_cons.1 h
    rw [spelledBody, spelledChars_append, ih hnodes, hnode indent, texts, flatMap_cons]
    rfl

theorem spelledChars_spelledParens (inner : List Spelled) (lead : Lead) :
    spelledChars (spelledParens lead inner) =
      lead.text.toList ++ '(' :: (spelledChars inner ++ [')']) := by
  simp [spelledParens, spelledChars, Token.spelling]

theorem writes_int (value : Int) (line : Nat) : Writes ⟨.int value, line⟩ := by
  intro indent lead
  rw [Node.spelled, Form.spelled, Node.text, Form.text, spelledInt]
  cases value with
  | ofNat n =>
    have htext : toString (Int.ofNat n) = toString n := rfl
    have hnonneg : ¬ Int.ofNat n < 0 := Int.not_lt.2 (Int.natCast_nonneg n)
    have hspelling : (Token.int (Int.ofNat n).natAbs).spelling = toString n := rfl
    rw [if_neg hnonneg, htext]
    simp only [spelledChars, hspelling, append_nil]
  | negSucc n =>
    have htext : toString (Int.negSucc n) = "-" ++ toString (n + 1) := rfl
    have hspelling : (Token.int (Int.negSucc n).natAbs).spelling = toString (n + 1) := rfl
    rw [if_pos (Int.negSucc_lt_zero n), htext]
    simp only [spelledChars, hspelling]
    simp [Token.spelling, Operator.text, BinaryOp.text]

theorem writes_call {name : String} {args : List Node} {line : Nat}
    (hargs : ∀ arg ∈ args, Writes arg) : Writes ⟨.call none name args false, line⟩ := by
  intro indent lead
  have hname : (nameToken name).spelling = name := by
    unfold nameToken
    split <;> rfl
  cases args with
  | nil =>
    simp [Node.spelled, Form.spelled, Node.text, Form.text, spelledChars, hname, texts,
      argumentsText]
  | cons arg args =>
    simp [Node.spelled, Form.spelled, Node.text, Form.text, spelledChars, hname, texts,
      argumentsText, inParens, spelledChars_spelledParens, spelledChars_spelledList hargs]

theorem writes_keywords {entries : List Node} {line : Nat} (hne : entries ≠ [])
    (hentries : ∀ entry ∈ entries, Writes entry) : Writes ⟨.hash entries false, line⟩ := by
  intro indent lead
  cases entries with
  | nil => exact absurd rfl hne
  | cons entry entries =>
    simp [Node.spelled, Form.spelled, Node.text, Form.text, spelledChars_spelledList hentries]

theorem writes_operation {left right : Lead → List Spelled} {leftText rightText : String}
    (hleft : ∀ lead, spelledChars (left lead) = lead.text.toList ++ leftText.toList)
    (hright : ∀ lead, spelledChars (right lead) = lead.text.toList ++ rightText.toList)
    (op : BinaryOp) (lead : Lead) :
    spelledChars (spelledOperation lead op left right) =
      lead.text.toList ++ (operationText op.text leftText rightText).toList := by
  simp [spelledOperation, spelledChars_spelledParens, spelledChars, hleft, hright, operationText,
    inParens, Token.spelling, Operator.text]

/-- The spelled tokens of a tree of the fragment are its text. -/
theorem spelledChars_spelled {capitals : Capitals} {role : Role}
    (h : InFragment capitals role node) : Writes node := by
  induction h with
  | atom line _ =>
    intro indent lead
    simp [Node.spelled, Form.spelled, Node.text, Form.text, spelledChars, Token.spelling]
  | int line _ => exact writes_int _ line
  | str content line =>
    intro indent lead
    simp [Node.spelled, Form.spelled, Node.text, Form.text, spelledChars, Token.spelling]
  | sym name line =>
    intro indent lead
    simp [Node.spelled, Form.spelled, Node.text, Form.text, spelledChars, Token.spelling]
  | const line _ _ =>
    intro indent lead
    simp [Node.spelled, Form.spelled, Node.text, Form.text, text?, spelledChars, Token.spelling]
  -- `spelledChars_spelledList` is about lists with a first item, which the lead belongs to.
  | @array items line _ ih =>
    intro indent lead
    cases items with
    | nil =>
      simp [Node.spelled, Form.spelled, Node.text, Form.text, spelledChars, Token.spelling, texts,
        listText, spelledList]
    | cons item items =>
      simp [Node.spelled, Form.spelled, Node.text, Form.text, spelledChars, Token.spelling,
        spelledChars_spelledList ih]
  | @hash entries line _ ih =>
    intro indent lead
    cases entries with
    | nil =>
      simp [Node.spelled, Form.spelled, Node.text, Form.text, spelledChars, Token.spelling]
    | cons entry entries =>
      simp [Node.spelled, Form.spelled, Node.text, Form.text, spelledChars, Token.spelling,
        spelledChars_spelledList ih]
  | @pair key value line _ _ _ ihkey ihvalue =>
    intro indent lead
    rw [Node.spelled, Form.spelled, Node.text, Form.text, spelledChars_append, ihvalue]
    cases key.labelKey? with
    | some name => simp [spelledChars, Token.spelling]
    | none => simp [spelledChars, ihkey indent lead, Token.spelling]
  | call line _ _ ih => exact writes_call ih
  -- The gathered pairs are one more argument, whose text is that of a list.
  | keywordCall line hashLine _ _ hne _ ihargs ihentries =>
    refine writes_call fun arg harg => ?_
    rcases mem_append.1 harg with harg | harg
    · exact ihargs arg harg
    · rw [mem_singleton.1 harg]
      exact writes_keywords hne ihentries
  | @binary op left right line _ _ _ ihleft ihright =>
    intro indent lead
    rw [Node.spelled, Form.spelled, Node.text, Form.text]
    refine writes_operation (fun lead => ?_) (ihright indent) op lead
    cases (op == .pow && left.needsParensAsReceiver) with
    | false => exact ihleft indent lead
    | true =>
      simp [spelledParensIf, spelledChars_spelledParens, ihleft indent .tight, inParensIf, inParens]
  | logical connective line _ _ ihleft ihright =>
    intro indent lead
    rw [Node.spelled, Form.spelled, Node.text, Form.text,
      writes_operation (ihleft indent) (ihright indent)]
    cases connective <;> rfl
  | ternary line _ _ _ ihcondition ihtrue ihfalse =>
    intro indent lead
    simp [Node.spelled, Form.spelled, Node.text, Form.text, spelledChars_spelledParens,
      spelledChars, ihcondition _ _, ihtrue _ _, ihfalse _ _, inParens, Token.spelling,
      Operator.text]
  | @range low high exclusive line _ _ _ ihlow ihhigh =>
    intro indent lead
    -- A bound that is not there has no tokens and no text.
    have hoption : ∀ node : Option Node, (∀ n ∈ node, Writes n) →
        spelledChars (spelled? indent node .tight) = ((text? indent node).getD "").toList := by
      intro node hnode
      cases node with
      | none => rfl
      | some node => exact hnode node rfl indent .tight
    rw [Node.spelled, Form.spelled, Node.text, Form.text]
    simp [spelledChars_spelledParens, spelledChars, hoption low ihlow, hoption high ihhigh,
      inParens, Token.spelling, Operator.text]
  | statement _ ih => exact ih
  | block callLine line _ _ _ ihcall ihbody =>
    intro indent lead
    rw [Node.spelled, Form.spelled, Node.text, Form.text]
    simp [spelledChars, ihcall _ _, spelledChars_spelledBody ihbody, bodyText, Token.spelling,
      String.toList_join, flatMap_map]

end LaneScript
