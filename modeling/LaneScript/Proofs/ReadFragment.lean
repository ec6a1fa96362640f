import LaneScript.Proofs.FragmentTokens
import LaneScript.Proofs.ReadPrimaries

/-!
# Reading lane programs back

Every tree of the fragment is read back from the tokens it is written with: `readsBack`, by
induction over `InFragment`.  The induction carries several readings of a value together, `IsValue`,
because a value may be asked for as an operand of the levels or as the base of a power; a pair is
read both as an argument and as an entry of a hash, `IsEntry`.

Each level of a tree costs the reader at most two levels of nesting: one for the parentheses, and
one for the exponent of a power or for the values of a ternary.
-/

namespace LaneScript

open LaneScript.Parser
open List

variable {op : BinaryOp} {name : String}

/-! ### Operations -/

section Operations

variable {levels : Nat} {left right : Node} {write write' : Lead → List Spelled}

/-- An operator between blanks is no argument of a command. -/
theorem closes_operator (op : BinaryOp) (line : Nat) {second : Located} {tokens : List Located}
    (hsecond : second.spaced = true) :
    Closes ⟨.op (.binary op), line, true⟩ (second :: tokens) := by
  refine closes_of_ne_newline rfl (by simp) ?_
  show ((Operator.binary op).startsOperand && true && !second.spaced) = false
  rw [hsecond, Bool.not_true, Bool.and_false]

/-- Every operator but the power has its level, with no tighter one that it stands on. -/
theorem BinaryOp.exists_level (hop : op ≠ .pow) :
    ∃ looser level tighter, BinaryOp.levels = looser ++ level :: tighter ∧ op ∈ level ∧
      ∀ level ∈ tighter, op ∉ level := by
  obtain ⟨level, hlevel, hmem⟩ := (mem_levels_iff op).2 hop
  obtain ⟨looser, tighter, hlevels⟩ := append_of_mem hlevel
  refine ⟨looser, level, tighter, hlevels, hmem, fun other hother hopOther => ?_⟩
  -- No operator stands in two levels.
  have hnodup := nodup_levels
  rw [hlevels, flatten_append, flatten_cons] at hnodup
  have hdisjoint := (nodup_append.1 (nodup_append.1 hnodup).2.1).2.2
  exact hdisjoint op hmem op (mem_flatten.2 ⟨other, hother, hopOther⟩) rfl

theorem Token.closesOperand_op (hop : op ≠ .pow) :
    (Token.op (.binary op)).closesOperand = true := by
  simp [closesOperand, closesValue, hop]

/-- An operation on two operands with an operator of the levels. -/
theorem ReadsBy.join (hop : op ≠ .pow)
    (hleft : ReadsBy Rule.signed Token.closesOperand levels left write)
    (hright : ReadsBy Rule.signed Token.closesOperand levels right write')
    (hstart : StartsWith Token.opensExpression write)
    (hstart' : StartsWith Token.opensExpression write') (nodeLine : Nat) :
    ReadsBy Rule.ternary Token.closesExpression levels ⟨op.join left right, nodeLine⟩
      fun lead => write lead ++ ⟨.blank, .op (.binary op)⟩ :: write' .blank := by
  intro s hs hdepth line spaced here ahead hhere hcloses bound hbound
  rw [hstart.place_infix hstart'] at hbound ⊢
  generalize line + spelledLines (write .tight) = opLine at hbound ⊢
  obtain ⟨looser, level, tighter, hlevels, hmem, htighter⟩ := BinaryOp.exists_level hop
  have hnone := joinsNone_of_closesExpression hhere
  have hsign : ∀ level ∈ tighter, Located.joinsNone ⟨.op (.binary op), opLine, true⟩ level := by
    intro level hlevel other hother htoken
    simp only [Token.op.injEq, Operator.binary.injEq] at htoken
    exact htighter level hlevel (htoken ▸ hother)
  -- The second operand is read by the rule for the tighter levels.
  have hsecond : ∀ bound, (place opLine true (write' .tight) ++ here :: ahead).length ≤ bound →
      Reads (Rule.operation (readAt bound) tighter) s (place opLine true (write' .tight))
        (here :: ahead) right := by
    intro bound hbound
    exact yields_operation (hright hs hdepth opLine true
      (Token.closesOperand_of_closesExpression hhere) hcloses bound hbound)
      (hstart'.ne_nil opLine true) hbound fun level _ => hnone level
  obtain ⟨token, more, htoken, hplace⟩ := hstart'.exists_place opLine true
  rw [hplace] at hbound hsecond ⊢
  have hfirst := hleft hs hdepth line spaced (Token.closesOperand_op hop)
    (closes_operator op opLine rfl) bound (by rwa [List.append_assoc] at hbound)
  refine yields_ternary_of_operation ?_ hhere
  rw [hlevels]
  exact reads_operation_join hfirst (hstart.ne_nil line spaced) hs.pipe rfl hmem
    (Token.ne_of_class htoken rfl) hsecond hsign (fun level _ => hnone level) hbound nodeLine

/-- A power, whose exponent is one level deeper than its base. -/
theorem ReadsBy.power (hleft : ReadsBy Rule.unary Token.closesValue (levels + 1) left write)
    (hright : ReadsBy Rule.signed Token.closesOperand levels right write')
    (hstart : StartsWith (· != .op (.binary .sub)) write)
    (hstart' : StartsWith Token.opensExpression write') (nodeLine : Nat) :
    ReadsBy Rule.signed Token.closesOperand (levels + 1) ⟨.binary .pow left right, nodeLine⟩
      fun lead => write lead ++ ⟨.blank, .op (.binary .pow)⟩ :: write' .blank := by
  intro s hs hdepth line spaced here ahead hhere hcloses bound hbound
  rw [hstart.place_infix hstart'] at hbound ⊢
  generalize line + spelledLines (write .tight) = opLine at hbound ⊢
  -- The rule asks for the exponent one level of nesting deeper.
  have hexponent : ∀ bound, (place opLine true (write' .tight) ++ here :: ahead).length ≤ bound →
      Reads (Rule.signed (readAt bound)) { s with depth := s.depth + 1 }
        (place opLine true (write' .tight)) (here :: ahead) right := by
    intro bound hbound
    exact hright hs.deeper (by show s.depth + 1 + levels ≤ _; omega) opLine true hhere hcloses bound
      hbound
  obtain ⟨token', more', htoken', hplace'⟩ := hstart'.exists_place opLine true
  obtain ⟨token, more, htoken, hplace⟩ := hstart.exists_place line spaced
  rw [hplace'] at hbound hexponent ⊢
  have hbase := hleft hs hdepth line spaced rfl (closes_operator .pow opLine rfl) bound
    (by rwa [List.append_assoc] at hbound)
  rw [hplace] at hbound hbase ⊢
  refine reads_power (by omega) hbase (bne_iff_ne.1 htoken) rfl (Token.ne_of_class htoken' rfl)
    hexponent ?_ nodeLine
  simp only [length_append, length_cons] at hbound ⊢
  omega

/-- A ternary. -/
theorem ReadsBy.conditional {condition whenTrue whenFalse : Node}
    {second third : Lead → List Spelled}
    (hcondition : ReadsBy Rule.signed Token.closesOperand levels condition write)
    (htrue : ReadsBy Rule.ternary Token.closesExpression levels whenTrue second)
    (hfalse : ReadsBy Rule.ternary Token.closesExpression levels whenFalse third)
    (hstart : StartsWith Token.opensExpression write)
    (hsecond : StartsWith Token.opensExpression second)
    (hthird : StartsWith Token.opensExpression third) (nodeLine : Nat) :
    ReadsBy Rule.ternary Token.closesExpression (levels + 1)
      ⟨.ternary condition whenTrue whenFalse, nodeLine⟩ fun lead =>
        write lead ++ ⟨.blank, .op .question⟩ ::
          (second .blank ++ ⟨.blank, .op .colon⟩ :: third .blank) := by
  intro s hs hdepth line spaced here ahead hhere hcloses bound hbound
  have hvalues : StartsWith Token.opensExpression fun lead =>
      second lead ++ ⟨.blank, .op .colon⟩ :: third .blank := hsecond.append (by simp)
  rw [hstart.place_infix hvalues, hsecond.place_infix hthird] at hbound ⊢
  generalize line + spelledLines (write .tight) = line₁ at hbound ⊢
  generalize line₁ + spelledLines (second .tight) = line₂ at hbound ⊢
  -- Both values are asked for one level deeper, the condition is not.
  have hroom : s.depth + 1 + levels ≤ maxNesting := by omega
  have hwhenFalse : ∀ bound, (place line₂ true (third .tight) ++ here :: ahead).length ≤ bound →
      Reads (Rule.ternary (readAt bound)) { s with depth := s.depth + 1 }
        (place line₂ true (third .tight)) (here :: ahead) whenFalse :=
    hfalse hs.deeper hroom line₂ true hhere hcloses
  have hwhenTrue : ∀ bound, (place line₁ true (second .tight) ++
      (⟨.op .colon, line₂, true⟩ :: place line₂ true (third .tight) ++ here :: ahead)).length ≤
        bound → Reads (Rule.ternary (readAt bound)) { s with depth := s.depth + 1 }
        (place line₁ true (second .tight))
        (⟨.op .colon, line₂, true⟩ :: place line₂ true (third .tight) ++ here :: ahead) whenTrue :=
    htrue hs.deeper hroom line₁ true rfl (closes_of_closesExpression _ rfl (by simp))
  obtain ⟨token₁, more₁, htoken₁, hplace₁⟩ := hsecond.exists_place line₁ true
  obtain ⟨token₂, more₂, htoken₂, hplace₂⟩ := hthird.exists_place line₂ true
  rw [hplace₁, hplace₂] at hbound hwhenTrue ⊢
  rw [hplace₂] at hwhenFalse
  have hquestion : Closes ⟨.op .question, line₁, true⟩ (⟨token₁, line₁, true⟩ :: more₁ ++
      (⟨.op .colon, line₂, true⟩ :: ⟨token₂, line₂, true⟩ :: more₂ ++ here :: ahead)) :=
    closes_of_ne_newline rfl (by simp) rfl
  rw [List.append_assoc, cons_append, List.append_assoc] at hbound
  have hfirst := hcondition hs (by omega) line spaced rfl hquestion bound hbound
  refine reads_ternary (by omega)
    (yields_range (yields_operation hfirst (hstart.ne_nil line spaced) hbound ?_) ?_) rfl
    (Token.ne_of_class htoken₁ rfl) hwhenTrue rfl (Token.ne_of_class htoken₂ rfl) hwhenFalse ?_
    nodeLine
  · intro level _ op _ htoken
    simp at htoken
  · simp
  · simp only [length_append, length_cons] at hbound ⊢
    omega

/-- The dots of a range are no argument of a command. -/
theorem closes_dots (exclusive : Bool) (line : Nat) (spaced : Bool) (tokens : List Located) :
    Closes ⟨.op (.range exclusive), line, spaced⟩ tokens :=
  closes_of_ne_newline rfl (by simp) rfl

/-- The first bound of a range ends at the dots. -/
theorem ReadsBy.lowBound (h : ReadsBy Rule.signed Token.closesOperand levels left write)
    (hstart : StartsWith Token.opensExpression write) {s : State} (hs : s.Calm)
    (hdepth : s.depth + levels ≤ maxNesting) (line : Nat) (spaced exclusive : Bool)
    {tokens : List Located} {dotsLine bound : Nat}
    (hbound : (place line spaced (write .tight) ++
      ⟨.op (.range exclusive), dotsLine, false⟩ :: tokens).length ≤ bound) :
    Reads (Rule.operation (readAt bound) BinaryOp.levels) s (place line spaced (write .tight))
      (⟨.op (.range exclusive), dotsLine, false⟩ :: tokens) left := by
  have hread := h hs hdepth line spaced rfl (closes_dots exclusive dotsLine false tokens) bound
    hbound
  refine yields_operation hread (hstart.ne_nil line spaced) hbound fun level _ op _ htoken => ?_
  simp at htoken

theorem startsExpression_of_closesExpression {token : Token} (h : token.closesExpression = true) :
    token.startsExpression = false := by
  cases token with
  | comma | rparen | rbracket | rbrace | arrow | newline | done => rfl
  | op operator =>
    obtain rfl := eq_colon_of_closesExpression h
    rfl
  | _ => exact Bool.noConfusion h

/-- The second bound of a range is an operation. -/
theorem ReadsBy.highBound {opens : Token → Bool}
    (h : ReadsBy Rule.signed Token.closesOperand levels right write')
    (hstart : StartsWith opens write') {s : State} (hs : s.Calm)
    (hdepth : s.depth + levels ≤ maxNesting) (line : Nat) {here : Located} {ahead : List Located}
    (hhere : here.token.closesExpression = true) (hcloses : Closes here ahead) (bound : Nat)
    (hbound : (place line false (write' .tight) ++ here :: ahead).length ≤ bound) :
    Reads (Rule.operation (readAt bound) BinaryOp.levels) s (place line false (write' .tight))
      (here :: ahead) right :=
  yields_operation
    (h hs hdepth line false (Token.closesOperand_of_closesExpression hhere) hcloses bound hbound)
    (hstart.ne_nil line false) hbound fun level _ => joinsNone_of_closesExpression hhere level

/-- A range without an end. -/
theorem ReadsBy.openRange (h : ReadsBy Rule.signed Token.closesOperand levels left write)
    (hstart : StartsWith Token.opensExpression write) (exclusive : Bool) (nodeLine : Nat) :
    ReadsBy Rule.ternary Token.closesExpression levels
      ⟨.range (some left) none exclusive, nodeLine⟩
      fun lead => write lead ++ [⟨.tight, .op (.range exclusive)⟩] := by
  intro s hs hdepth line spaced here ahead hhere hcloses bound hbound
  have hplace : place line spaced (write .tight ++ [⟨.tight, .op (.range exclusive)⟩]) =
      place line spaced (write .tight) ++
        [⟨.op (.range exclusive), line + spelledLines (write .tight), false⟩] := by
    rw [hstart.place_append]
    rfl
  rw [hplace] at hbound ⊢
  rw [List.append_assoc, singleton_append] at hbound
  -- the dots close the operand
  have hlow := h.lowBound hstart hs hdepth line spaced exclusive hbound
  exact yields_ternary (reads_range_open hlow rfl (startsExpression_of_closesExpression hhere)
    nodeLine) (Token.ne_of_class hhere rfl)

/-- A range with a beginning and an end. -/
theorem ReadsBy.closedRange (h : ReadsBy Rule.signed Token.closesOperand levels left write)
    (h' : ReadsBy Rule.signed Token.closesOperand levels right write')
    (hstart : StartsWith Token.opensExpression write)
    (hstart' : StartsWith Token.opensValue write') (exclusive : Bool) (nodeLine : Nat) :
    ReadsBy Rule.ternary Token.closesExpression levels
      ⟨.range (some left) (some right) exclusive, nodeLine⟩
      fun lead => write lead ++ ⟨.tight, .op (.range exclusive)⟩ :: write' .tight := by
  intro s hs hdepth line spaced here ahead hhere hcloses bound hbound
  have hplace : place line spaced (write .tight ++ ⟨.tight, .op (.range exclusive)⟩ ::
      write' .tight) = place line spaced (write .tight) ++
        ⟨.op (.range exclusive), line + spelledLines (write .tight), false⟩ ::
          place (line + spelledLines (write .tight)) false (write' .tight) := by
    rw [hstart.place_append]
    rfl
  rw [hplace] at hbound ⊢
  generalize line + spelledLines (write .tight) = dotsLine at hbound ⊢
  rw [List.append_assoc] at hbound
  -- the dots close the first operand, and the second starts right behind them
  have hlow := h.lowBound hstart hs hdepth line spaced exclusive hbound
  have hhigh : ∀ bound, (place dotsLine false (write' .tight) ++ here :: ahead).length ≤ bound →
      Reads (Rule.operation (readAt bound) BinaryOp.levels) s (place dotsLine false (write' .tight))
        (here :: ahead) right := h'.highBound hstart' hs hdepth dotsLine hhere hcloses
  obtain ⟨token, more, htoken, hmore⟩ := hstart'.exists_place dotsLine false
  rw [hmore] at hlow hhigh hbound ⊢
  refine yields_ternary (reads_range_closed hlow rfl ?_ hhigh ?_ nodeLine)
    (Token.ne_of_class hhere rfl)
  · exact (Bool.and_eq_true_iff.1 htoken).2
  · simp only [length_append, length_cons] at hbound ⊢
    omega

/-- A range without a beginning. -/
theorem ReadsBy.endRange (h : ReadsBy Rule.signed Token.closesOperand levels right write')
    (hstart : StartsWith Token.opensValue write') (exclusive : Bool) (nodeLine : Nat) :
    ReadsBy Rule.ternary Token.closesExpression levels
      ⟨.range none (some right) exclusive, nodeLine⟩
      fun lead => ⟨lead, .op (.range exclusive)⟩ :: write' .tight := by
  intro s hs hdepth line spaced here ahead hhere hcloses bound hbound
  have hplace : place line spaced (⟨.tight, .op (.range exclusive)⟩ :: write' .tight) =
      ⟨.op (.range exclusive), line, spaced⟩ :: place line false (write' .tight) := rfl
  rw [hplace] at hbound ⊢
  have hhigh : Reads (readAt bound (.operation BinaryOp.levels)) s
      (place line false (write' .tight)) (here :: ahead) right :=
    yields_readAt (h.highBound hstart hs hdepth line hhere hcloses) (Nat.lt_of_succ_le hbound)
  -- It starts with the dots, which makes it a primary expression and not an operation.
  have hprimary : Reads (Rule.primary (readAt bound)) s
      (⟨.op (.range exclusive), line, spaced⟩ :: place line false (write' .tight)) (here :: ahead)
      ⟨.range none (some right) exclusive, nodeLine⟩ := by
    refine yields_primary rfl (by simp) (hhigh.bind_left fun high hhigh => yields_pure ?_)
    exact congrArg (fun high => Node.mk (.range none (some high) exclusive) 0) hhigh
  have hoperand := yields_operand hprimary hcloses (cons_ne_nil _ _) hbound
  have hsigned := yields_signed (yields_unary hoperand rfl) (by simp)
    (Token.ne_of_class hhere rfl)
  exact yields_ternary_of_signed hsigned (cons_ne_nil _ _) hbound hhere

end Operations

/-! ### Values -/

/-- The token can be the first of a value that is the base of a power. -/
def Token.opensBase (token : Token) : Bool := token.opensValue && token != .op (.binary .sub)

/-- How a value is read: as an operand, and where it needs no parentheses also as the base of a
power. -/
structure IsValue (indent : Nat) (node : Node) : Prop where
  starts : StartsWith Token.opensValue (node.spelled indent)
  signed : ReadsBy Rule.signed Token.closesOperand (2 * node.height) node (node.spelled indent)
  base : node.needsParensAsReceiver = false →
    StartsWith Token.opensBase (node.spelled indent) ∧
      ReadsBy Rule.unary Token.closesValue (2 * node.height) node (node.spelled indent)

theorem StartsWith.expression {write : Lead → List Spelled}
    (h : StartsWith Token.opensValue write) : StartsWith Token.opensExpression write :=
  h.mono fun _ htoken => (Bool.and_eq_true_iff.1 htoken).1

theorem StartsWith.value {write : Lead → List Spelled} (h : StartsWith Token.opensBase write) :
    StartsWith Token.opensValue write :=
  h.mono fun _ htoken => (Bool.and_eq_true_iff.1 htoken).1

theorem StartsWith.unsigned {write : Lead → List Spelled} (h : StartsWith Token.opensBase write) :
    StartsWith (· != .op (.binary .sub)) write :=
  h.mono fun _ htoken => (Bool.and_eq_true_iff.1 htoken).2

theorem IsItem.mono {item : Reader → Parser Node} {indent levels levels' : Nat} {node : Node}
    (h : IsItem item indent levels node) (hlevels : levels ≤ levels') :
    IsItem item indent levels' node := ⟨h.starts, h.reads.mono hlevels⟩

section Values

variable {indent levels : Nat} {node : Node} {write : Lead → List Spelled}

namespace IsValue

variable (h : IsValue indent node)

include h

theorem ternary :
    ReadsBy Rule.ternary Token.closesExpression (2 * node.height) node (node.spelled indent) :=
  h.signed.ternary h.starts.expression

/-- A value may be that of an argument, one level further in. -/
theorem argumentValue :
    ReadsBy Rule.argumentValue Token.closesExpression (2 * node.height + 1) node
      (node.spelled indent) :=
  h.ternary.expression.argumentValue h.starts.expression

/-- A value is an item of a list. -/
theorem isItem : IsItem (· .argument) indent (2 * node.height + 1) node :=
  ⟨h.starts.expression.mono fun _ => Token.opensItem_of_opensExpression,
    h.argumentValue.argument h.starts.expression⟩

/-- A value is a statement. -/
theorem isStatement : IsStatement (2 * node.height + 1) node (node.spelled indent) :=
  ⟨h.starts.expression, h.ternary.expression.statement h.starts.expression⟩

end IsValue

/-- A primary expression is a value. -/
theorem isValue_of_primary (hwrite : node.spelled indent = write)
    (hstart : StartsWith Token.opensBase write)
    (h : ReadsBy Rule.primary Token.closesValue levels node write)
    (hlevels : levels ≤ 2 * node.height) : IsValue indent node := by
  subst hwrite
  have hunary := (h.mono hlevels).unary hstart.value.expression
  exact ⟨hstart.value, hunary.signed hstart.unsigned, fun _ => ⟨hstart, hunary⟩⟩

/-- What is in parentheses starts with the opening one. -/
theorem startsWith_spelledParens (hstart : StartsWith Token.opensExpression write) :
    StartsWith Token.opensBase fun lead => spelledParens lead (write .tight) := by
  exact ⟨_, _, rfl, hstart.noTargets rfl rfl .tight _, fun _ => rfl⟩

/-- An operation, which is written in parentheses, is a value. -/
theorem isValue_of_operation
    (hwrite : node.spelled indent = fun lead => spelledParens lead (write .tight))
    (hstart : StartsWith Token.opensExpression write)
    (h : ReadsBy Rule.ternary Token.closesExpression levels node write)
    (hlevels : levels + 1 ≤ 2 * node.height) : IsValue indent node :=
  isValue_of_primary hwrite (startsWith_spelledParens hstart) (h.parens hstart) hlevels

theorem isValue_atom {atom : Atom} (line : Nat)
    (hatom : atom ∈ [.nilValue, .trueValue, .falseValue, .selfValue]) :
    IsValue indent ⟨.atom atom, line⟩ := by
  have hopens : ∀ atom ∈ [Atom.nilValue, .trueValue, .falseValue, .selfValue],
      (Token.word atom.text).opensBase = true := by decide
  exact isValue_of_primary rfl ⟨_, [], hopens atom hatom, by simp, fun _ => rfl⟩
    (readsBy_atom atom line) (Nat.zero_le _)

/-- An integer.  A negative one is two tokens, which the power would take apart. -/
theorem isValue_int (value : Int) (line : Nat) : IsValue indent ⟨.int value, line⟩ := by
  cases value with
  | ofNat n =>
    exact isValue_of_primary rfl ⟨_, [], rfl, by simp, fun _ => rfl⟩ (readsBy_int n line)
      (Nat.zero_le _)
  | negSucc n =>
    have hwrite : ∀ lead, (Node.mk (.int (.negSucc n)) line).spelled indent lead =
        [⟨lead, .op (.binary .sub)⟩, ⟨.tight, .int (n + 1)⟩] := by
      intro lead
      rw [Node.spelled, Form.spelled, spelledInt, if_pos (Int.negSucc_lt_zero n)]
      rfl
    refine ⟨⟨_, _, rfl, by simp, hwrite⟩, ?_, fun hbase => ?_⟩
    -- The sign belongs to the operand, so this is not a primary expression.
    · intro s hs hdepth line' spaced here ahead hhere hcloses bound hbound
      rw [hwrite] at hbound ⊢
      have hminus : (Located.mk (.op (.binary .sub)) line' spaced).token = .op (.binary .sub) := rfl
      have hnumber : (Located.mk (.int (n + 1)) line' false).token = .int (n + 1) := rfl
      exact reads_negative hminus hnumber rfl hcloses (Token.ne_of_class hhere rfl)
        (Nat.lt_of_succ_le (Nat.le_of_succ_le hbound)) line
    · exact absurd hbase (by simp [Node.needsParensAsReceiver])

theorem isValue_str (content : String) (line : Nat) : IsValue indent ⟨.str content, line⟩ :=
  isValue_of_primary rfl ⟨_, [], rfl, by simp, fun _ => rfl⟩ (readsBy_str content line)
    (Nat.zero_le _)

theorem isValue_sym (name : String) (line : Nat) : IsValue indent ⟨.sym name, line⟩ :=
  isValue_of_primary rfl ⟨_, [], rfl, by simp, fun _ => rfl⟩ (readsBy_sym name line)
    (Nat.zero_le _)

theorem isValue_const (name : String) (line : Nat) : IsValue indent ⟨.const none name, line⟩ :=
  isValue_of_primary rfl ⟨_, [], rfl, by simp, fun _ => rfl⟩ (readsBy_const name line)
    (Nat.zero_le _)

/-! ### Lists of values -/

theorem noTargets_spelledList {item : Reader → Parser Node} {nodes : List Node}
    (hnodes : ∀ node ∈ nodes, IsItem item indent levels node) (lead : Lead) {tokens : List Spelled}
    (htokens : NoTargets tokens) : NoTargets (spelledList indent nodes lead ++ tokens) := by
  cases nodes with
  | nil => exact htokens
  | cons node nodes =>
    rw [spelledList, List.append_assoc]
    exact (hnodes node (by simp)).starts.noTargets rfl rfl lead _

theorem isValue_array {items : List Node} (line : Nat)
    (hitems : ∀ item ∈ items, IsValue indent item)
    (hvalues : ∀ item ∈ items, item.isKeywordEntry = false) :
    IsValue indent ⟨.array items, line⟩ := by
  have hreads : ∀ item ∈ items, IsItem (· .argument) indent (2 * heightOver items) item := by
    intro item hitem
    have hlt := height_lt_heightOver hitem
    exact (hitems item hitem).isItem.mono (by omega)
  exact isValue_of_primary rfl
    ⟨_, _, rfl, noTargets_spelledList hreads .tight (by simp), fun _ => rfl⟩
    (readsBy_array hreads hvalues line) (Nat.le_refl _)

/-! ### Pairs and hashes -/

/-- How a pair is read: among the arguments of a call, and as an entry of a hash. -/
structure IsEntry (indent : Nat) (node : Node) : Prop where
  argument : IsItem (· .argument) indent (2 * node.height + 1) node
  entry : IsItem Rule.entry indent (2 * node.height + 1) node

/-- A symbol that is a name is written as a label. -/
theorem isEntry_label {value : Node} (hvalue : IsValue indent value)
    (hname : isNameText name.toList = true) (symLine line : Nat) :
    IsEntry indent ⟨.pair ⟨.sym name, symLine⟩ value, line⟩ := by
  have hwrite : (Node.mk (.pair ⟨.sym name, symLine⟩ value) line).spelled indent = fun lead =>
      ⟨lead, .label name⟩ :: value.spelled indent .blank := by
    funext lead
    have hlabel : (Node.mk (.sym name) symLine).labelKey? = some name := if_pos hname
    rw [Node.spelled, Form.spelled, hlabel]
    rfl
  have hstart : StartsWith Token.opensItem fun lead =>
      ⟨lead, .label name⟩ :: value.spelled indent .blank := by
    have hplain := hvalue.starts.noTargets rfl rfl .blank []
    rw [append_nil] at hplain
    exact ⟨_, _, rfl, hplain, fun _ => rfl⟩
  have hheight : value.height ≤ (Node.mk (.pair ⟨.sym name, symLine⟩ value) line).height :=
    Nat.le_max_right _ _
  have hreads := hvalue.argumentValue.mono
    (show 2 * value.height + 1 ≤ 2 * (Node.mk (.pair ⟨.sym name, symLine⟩ value) line).height + 1 by
      omega)
  -- as an argument and as an entry: how it starts, and how it is read
  constructor <;> constructor <;> rw [hwrite]
  · exact hstart
  · exact readsBy_labelledPair hreads hvalue.starts.expression
      (fun read _ _ _ htoken => run_argument_label read htoken) symLine line
  · exact hstart
  · exact (readsBy_labelledPair hreads hvalue.starts.expression
      (fun read _ _ _ htoken => run_entry_label read htoken) symLine line).above

theorem spelled_mapped {key : Node} (hlabel : key.labelKey? = none) (value : Node) (line : Nat) :
    (Node.mk (.pair key value) line).spelled indent = fun lead =>
      key.spelled indent lead ++ ⟨.blank, .arrow⟩ :: value.spelled indent .blank := by
  funext lead
  rw [Node.spelled, Form.spelled, hlabel, List.append_assoc]
  rfl

/-- Any other key is written with an arrow. -/
theorem isEntry_mapped {key value : Node} (hkey : IsValue indent key)
    (hvalue : IsValue indent value) (hlabel : key.labelKey? = none) (line : Nat) :
    IsEntry indent ⟨.pair key value, line⟩ := by
  have hwrite : (Node.mk (.pair key value) line).spelled indent = _ :=
    spelled_mapped hlabel value line
  have hstart : StartsWith Token.opensItem fun lead =>
      key.spelled indent lead ++ ⟨.blank, .arrow⟩ :: value.spelled indent .blank :=
    (hkey.starts.expression.mono fun _ => Token.opensItem_of_opensExpression).append (by simp)
  have hheight : (Node.mk (.pair key value) line).height = max key.height value.height := rfl
  have hkeyReads := hkey.argumentValue.mono
    (show 2 * key.height + 1 ≤ 2 * (Node.mk (.pair key value) line).height + 1 by omega)
  have hvalueReads := hvalue.argumentValue.mono
    (show 2 * value.height + 1 ≤ 2 * (Node.mk (.pair key value) line).height + 1 by omega)
  -- Among arguments the key is read as a value of an argument, in a hash as a ternary.
  have hternary := hkey.ternary.mono
    (show 2 * key.height ≤ 2 * (Node.mk (.pair key value) line).height + 1 by omega)
  constructor <;> constructor <;> rw [hwrite]
  · exact hstart
  · exact ReadsBy.mappedArgument hvalueReads hvalue.starts.expression hkeyReads
      hkey.starts.expression line
  · exact hstart
  · exact ReadsBy.mappedEntry hvalueReads hvalue.starts.expression hternary hkey.starts.expression
      line

theorem isEntry_pair {key value : Node} (hkey : IsValue indent key) (hvalue : IsValue indent value)
    (line : Nat) : IsEntry indent ⟨.pair key value, line⟩ := by
  cases hlabel : key.labelKey? with
  | none => exact isEntry_mapped hkey hvalue hlabel line
  | some name =>
    obtain ⟨form, symLine⟩ := key
    obtain ⟨rfl, hname⟩ := labelKey?_eq_some hlabel
    exact isEntry_label hvalue hname symLine line

theorem isValue_hash {entries : List Node} (line : Nat)
    (hentries : ∀ entry ∈ entries, IsEntry indent entry) :
    IsValue indent ⟨.hash entries true, line⟩ := by
  have hreads : ∀ entry ∈ entries, IsItem Rule.entry indent (2 * heightOver entries) entry := by
    intro entry hentry
    have hlt := height_lt_heightOver hentry
    exact (hentries entry hentry).entry.mono (by omega)
  have hstart : StartsWith Token.opensBase (spelledHash indent entries) := by
    cases entries with
    | nil => exact ⟨.lbrace, [⟨.tight, .rbrace⟩], rfl, by simp, fun _ => rfl⟩
    | cons entry entries =>
      exact ⟨_, _, rfl, noTargets_spelledList hreads .blank (by simp), fun _ => rfl⟩
  exact isValue_of_primary (funext fun _ => rfl) hstart (readsBy_hash hreads line) (Nat.le_refl _)

/-! ### Calls -/

theorem isArguments_values {args : List Node} (hargs : ∀ arg ∈ args, IsValue indent arg)
    (hvalues : ∀ arg ∈ args, arg.isKeywordEntry = false) :
    IsArguments indent (2 * heightOver args) args args := by
  refine ⟨fun arg harg => ?_, ?_, rfl⟩
  · have hlt := height_lt_heightOver harg
    exact (hargs arg harg).isItem.mono (by omega)
  · rw [groupKeywords_values hvalues]

theorem spelledMore_append (indent : Nat) (nodes others : List Node) :
    spelledMore indent (nodes ++ others) =
      spelledMore indent nodes ++ spelledMore indent others := by
  induction nodes with
  | nil => rfl
  | cons node nodes ih =>
    rw [cons_append, spelledMore, spelledMore, ih, cons_append, List.append_assoc]

/-- The pairs of a hash without braces are written as if they were items themselves. -/
theorem spelledList_keywords (indent : Nat) (args : List Node) {entries : List Node}
    (hne : entries ≠ []) (line : Nat) :
    spelledList indent (args ++ [⟨.hash entries false, line⟩]) .tight =
      spelledList indent (args ++ entries) .tight := by
  have hhash : ∀ lead, (Node.mk (.hash entries false) line).spelled indent lead =
      spelledList indent entries lead := fun _ => rfl
  obtain ⟨entry, others, rfl⟩ := exists_cons_of_ne_nil hne
  cases args with
  | nil => rw [nil_append, nil_append, spelledList, hhash, spelledMore, append_nil]
  | cons arg args =>
    rw [cons_append, cons_append, spelledList, spelledList, spelledMore_append,
      spelledMore_append, spelledMore, hhash, spelledMore, append_nil, spelledMore,
      spelledList]

theorem bareAll_append (nodes others : List Node) :
    bareAll (nodes ++ others) = bareAll nodes ++ bareAll others := by
  rw [bareAll_eq_map, bareAll_eq_map, bareAll_eq_map, map_append]

/-- The keywords behind the values are gathered into one hash. -/
theorem isArguments_keywords {args entries : List Node} (hargs : ∀ arg ∈ args, IsValue indent arg)
    (hvalues : ∀ arg ∈ args, arg.isKeywordEntry = false) (hne : entries ≠ [])
    (hentries : ∀ entry ∈ entries, IsEntry indent entry)
    (hpairs : ∀ entry ∈ entries, entry.isKeywordEntry = true) (line : Nat) :
    IsArguments indent (2 * heightOver (args ++ [⟨.hash entries false, line⟩]))
      (args ++ [⟨.hash entries false, line⟩]) (args ++ entries) := by
  refine ⟨fun item hitem => ?_, ?_, spelledList_keywords indent args hne line⟩
  -- The gathered hash is as high as its highest pair, so a pair has the room of an argument.
  · rcases mem_append.1 hitem with harg | hentry
    · have hlt := height_lt_heightOver (mem_append_left [⟨.hash entries false, line⟩] harg)
      exact (hargs item harg).isItem.mono (by omega)
    · have hlt := height_lt_heightOver (mem_append_right args
        (mem_singleton_self (Node.mk (.hash entries false) line)))
      have hle : item.height ≤ (Node.mk (.hash entries false) line).height :=
        height_le_heightOf hentry
      exact (hentries item hentry).argument.mono (by omega)
  · obtain ⟨entry, others, rfl⟩ := exists_cons_of_ne_nil hne
    rw [groupKeywords_append hvalues, groupKeywords_entries hpairs, bareAll_append, bareAll_append]
    rfl

theorem opensBase_word (h : name ∉ reservedWords) : (Token.word name).opensBase = true := by
  have hnot : name ≠ "not" := fun hname => h (hname ▸ by decide)
  have hsubset : stopWords ⊆ reservedWords := by decide
  have hstop : name ∉ stopWords := fun hmem => h (hsubset hmem)
  simp [Token.opensBase, Token.opensValue, Token.opensExpression, Token.startsExpression, hnot,
    hstop]

theorem noTargets_spelledArguments (indent : Nat) (args : List Node) :
    NoTargets (spelledArguments indent args) := by
  cases args <;> simp [spelledArguments, spelledParens]

/-- A constant's name is that of a call only before arguments. -/
theorem isValue_call {args items : List Node}
    (hname : IsMethodName name ∨ IsConstantName name ∧ args ≠ [])
    (hargs : IsArguments indent (2 * heightOver args) args items) (line : Nat) :
    IsValue indent ⟨.call none name args false, line⟩ := by
  have hplain := noTargets_spelledArguments indent args
  -- the name is written as a word, or as a constant
  rcases hname with ⟨-, hlower, hreserved, -⟩ | ⟨⟨-, hcapital⟩, hne⟩
  · have hwrite : (Node.mk (.call none name args false) line).spelled indent = fun lead =>
        ⟨lead, .word name⟩ :: spelledArguments indent args := by
      funext lead
      rw [Node.spelled, Form.spelled, nameToken, hlower]
      rfl
    exact isValue_of_primary hwrite ⟨_, _, opensBase_word hreserved, hplain, fun _ => rfl⟩
      (readsBy_methodCall hreserved hargs line) (Nat.le_refl _)
  · have hwrite : (Node.mk (.call none name args false) line).spelled indent = fun lead =>
        ⟨lead, .const name⟩ :: spelledArguments indent args := by
      funext lead
      rw [Node.spelled, Form.spelled, nameToken, hcapital]
      rfl
    exact isValue_of_primary hwrite ⟨_, _, rfl, hplain, fun _ => rfl⟩
      (readsBy_constantCall hne hargs line) (Nat.le_refl _)

/-! ### Operations on values -/

theorem BinaryOp.join_eq_binary (hop : op ≠ .or ∧ op ≠ .and) (left right : Node) :
    op.join left right = .binary op left right := by
  cases op with
  | or => exact absurd rfl hop.1
  | and => exact absurd rfl hop.2
  | _ => rfl

theorem Connective.join_operator (connective : Connective) (left right : Node) :
    connective.operator.join left right = .logical connective left right := by
  cases connective <;> rfl

section Pair

variable {left right : Node} (hleft : IsValue indent left) (hright : IsValue indent right)

include hleft hright

/-- Two values with an operator of the levels between them. -/
theorem isValue_join (hop : op ≠ .pow) (hwrite : node.spelled indent = fun lead =>
      spelledOperation lead op (left.spelled indent) (right.spelled indent))
    (hform : node.form = op.join left right)
    (hheight : node.height = max left.height right.height + 1) : IsValue indent node := by
  obtain ⟨form, line⟩ := node
  obtain rfl : form = op.join left right := hform
  have hjoin := ReadsBy.join hop
    (hleft.signed.mono (show 2 * left.height ≤ 2 * max left.height right.height by omega))
    (hright.signed.mono (show 2 * right.height ≤ 2 * max left.height right.height by omega))
    hleft.starts.expression hright.starts.expression line
  refine isValue_of_operation ?_ (hleft.starts.expression.append (by simp)) hjoin (by omega)
  exact hwrite

/-- The power of two values. -/
theorem isValue_power (line : Nat) : IsValue indent ⟨.binary .pow left right, line⟩ := by
  have hheight : (Node.mk (.binary .pow left right) line).height =
      max left.height right.height + 1 := rfl
  -- A base that needs parentheses is a negative number.
  have hbase : StartsWith Token.opensBase
        (spelledParensIf left.needsParensAsReceiver (left.spelled indent)) ∧
      ReadsBy Rule.unary Token.closesValue (2 * left.height + 1) left
        (spelledParensIf left.needsParensAsReceiver (left.spelled indent)) := by
    cases hneeds : left.needsParensAsReceiver with
    | false =>
      obtain ⟨hstart, hunary⟩ := hleft.base hneeds
      exact ⟨hstart, hunary.mono (Nat.le_succ _)⟩
    | true =>
      have hstart := startsWith_spelledParens hleft.starts.expression
      exact ⟨hstart, (hleft.ternary.parens hleft.starts.expression).unary hstart.value.expression⟩
  have hpower := ReadsBy.power
    (hbase.2.mono (show 2 * left.height + 1 ≤ 2 * max left.height right.height + 1 by omega))
    (hright.signed.mono (show 2 * right.height ≤ 2 * max left.height right.height by omega))
    hbase.1.unsigned hright.starts.expression line
  have hstart : StartsWith Token.opensExpression fun lead =>
      spelledParensIf left.needsParensAsReceiver (left.spelled indent) lead ++
        ⟨.blank, .op (.binary .pow)⟩ :: right.spelled indent .blank :=
    hbase.1.value.expression.append (by simp)
  exact isValue_of_operation rfl hstart (hpower.ternary hstart) (by omega)

theorem isValue_binary (hop : op ≠ .or ∧ op ≠ .and) (line : Nat) :
    IsValue indent ⟨.binary op left right, line⟩ := by
  by_cases hpow : op = .pow
  · subst hpow
    exact isValue_power hleft hright line
  · refine isValue_join hleft hright hpow ?_ (BinaryOp.join_eq_binary hop left right).symm rfl
    funext lead
    rw [Node.spelled, Form.spelled, beq_eq_false_iff_ne.2 hpow]
    rfl

theorem isValue_logical (connective : Connective) (line : Nat) :
    IsValue indent ⟨.logical connective left right, line⟩ :=
  isValue_join hleft hright (by cases connective <;> simp [Connective.operator]) rfl
    (connective.join_operator left right).symm rfl

end Pair

theorem isValue_ternary {condition whenTrue whenFalse : Node}
    (hcondition : IsValue indent condition) (htrue : IsValue indent whenTrue)
    (hfalse : IsValue indent whenFalse) (line : Nat) :
    IsValue indent ⟨.ternary condition whenTrue whenFalse, line⟩ := by
  have hheight : (Node.mk (.ternary condition whenTrue whenFalse) line).height =
      max condition.height (max whenTrue.height whenFalse.height) + 1 := rfl
  generalize hmax : max condition.height (max whenTrue.height whenFalse.height) = height at hheight
  have hconditional := ReadsBy.conditional
    (hcondition.signed.mono (show 2 * condition.height ≤ 2 * height by omega))
    (htrue.ternary.mono (show 2 * whenTrue.height ≤ 2 * height by omega))
    (hfalse.ternary.mono (show 2 * whenFalse.height ≤ 2 * height by omega))
    hcondition.starts.expression htrue.starts.expression hfalse.starts.expression line
  exact isValue_of_operation rfl (hcondition.starts.expression.append (by simp)) hconditional
    (by omega)

/-- A range has one end at least. -/
theorem isValue_range {low high : Option Node} (exclusive : Bool) (line : Nat)
    (hbound : low ≠ none ∨ high ≠ none) (hlow : ∀ node ∈ low, IsValue indent node)
    (hhigh : ∀ node ∈ high, IsValue indent node) :
    IsValue indent ⟨.range low high exclusive, line⟩ := by
  have hheight : (Node.mk (.range low high exclusive) line).height =
      max (height? low) (height? high) + 1 := rfl
  cases low with
  -- Which bounds there are decides how the range is read: only one with a first bound is met by
  -- the rule for ranges.
  | none =>
    cases high with
    | none => simp at hbound
    | some high =>
      have hvalue := hhigh high rfl
      have hplain := hvalue.starts.noTargets rfl rfl .tight []
      rw [append_nil] at hplain
      refine isValue_of_operation ?_ ⟨_, _, rfl, hplain, fun _ => rfl⟩
        (ReadsBy.endRange hvalue.signed hvalue.starts exclusive line) ?_
      · rfl
      · have hle : high.height ≤ max (height? none) (height? (some high)) := Nat.le_max_right _ _
        omega
  | some low =>
    have hvalue := hlow low rfl
    have hle : low.height ≤ max (height? (some low)) (height? high) := Nat.le_max_left _ _
    cases high with
    | none =>
      refine isValue_of_operation ?_ (hvalue.starts.expression.append (by simp))
        (ReadsBy.openRange hvalue.signed hvalue.starts.expression exclusive line) (by omega)
      rfl
    | some high =>
      have hvalue' := hhigh high rfl
      have hle' : high.height ≤ max (height? (some low)) (height? (some high)) :=
        Nat.le_max_right _ _
      generalize max (height? (some low)) (height? (some high)) = height at *
      have hrange := ReadsBy.closedRange
        (hvalue.signed.mono (show 2 * low.height ≤ 2 * height by omega))
        (hvalue'.signed.mono (show 2 * high.height ≤ 2 * height by omega))
        hvalue.starts.expression hvalue'.starts exclusive line
      refine isValue_of_operation ?_ (hvalue.starts.expression.append (by simp)) hrange (by omega)
      rfl

/-! ### Blocks -/

/-- A call with a block.  It is read like a value, but can only be written as a statement. -/
theorem isValue_block {args items body : List Node} (hname : IsMethodName name)
    (hargs : IsArguments indent (2 * heightOver args) args items)
    (hbody : ∀ node ∈ body, IsStatement (2 * node.height + 1) node (node.spelled (indent + 1)))
    (callLine line : Nat) :
    IsValue indent ⟨.block ⟨.call none name args false, callLine⟩ [] body, line⟩ := by
  obtain ⟨-, hlower, hreserved, -⟩ := hname
  have hheight : (Node.mk (.block ⟨.call none name args false, callLine⟩ [] body) line).height =
      max (heightOver args) (heightOver body) := rfl
  generalize hmax : max (heightOver args) (heightOver body) = height at hheight
  have hreads : IsArguments indent (2 * height) args items :=
    ⟨fun item hitem => (hargs.reads item hitem).mono (by omega), hargs.grouped, hargs.spelled⟩
  -- the statements of the body are lower than the block
  have hstatements : ∀ node ∈ body,
      IsStatement (2 * height) node (node.spelled (indent + 1)) := by
    intro node hnode
    have hlt := height_lt_heightOver hnode
    exact ⟨(hbody node hnode).starts, (hbody node hnode).reads.mono (by omega)⟩
  have hstart : StartsWith Token.opensBase fun lead =>
      (⟨lead, .word name⟩ :: spelledArguments indent args) ++ spelledBlock indent body :=
    StartsWith.append ⟨_, _, opensBase_word hreserved, noTargets_spelledArguments indent args,
      fun _ => rfl⟩ (by simp [spelledBlock])
  refine isValue_of_primary ?_ hstart (readsBy_block hreserved hreads hstatements callLine line)
    (by omega)
  funext lead
  rw [Node.spelled, Form.spelled, Node.spelled, Form.spelled, nameToken, hlower]
  rfl

end Values

/-! ### The whole fragment -/

/-- The arguments of a call can be read. -/
def HasArguments (indent : Nat) (node : Node) : Prop :=
  ∀ name args, node.form = .call none name args false →
    ∃ items, IsArguments indent (2 * heightOver args) args items

/-- What is read back of a tree of the fragment. -/
def ReadsBack (indent : Nat) (node : Node) : Role → Prop
  | .value => IsValue indent node ∧ HasArguments indent node ∧ node.isKeywordEntry = false
  | .entry => IsEntry indent node ∧ node.isKeywordEntry = true
  | .statement => IsValue indent node

/-- By induction over the fragment: every part reads back in its place. -/
theorem readsBack {capitals : Capitals} {role : Role} {node : Node} (hcalls : capitals ≠ .calls)
    (h : InFragment capitals role node) (indent : Nat) : ReadsBack indent node role := by
  -- The indentation is generalised for the bodies of blocks, which are written one step deeper.
  induction h generalizing indent with
  | atom line hatom => exact ⟨isValue_atom line hatom, nofun, rfl⟩
  | int line _ => exact ⟨isValue_int _ line, nofun, rfl⟩
  | str content line => exact ⟨isValue_str content line, nofun, rfl⟩
  | sym name line => exact ⟨isValue_sym name line, nofun, rfl⟩
  | @const name line _ _ => exact ⟨isValue_const name line, nofun, rfl⟩
  | array line _ ih =>
    exact ⟨isValue_array line (fun item hitem => (ih item hitem indent).1)
      fun item hitem => (ih item hitem indent).2.2, nofun, rfl⟩
  | hash line _ ih =>
    exact ⟨isValue_hash line fun entry hentry => (ih entry hentry indent).1, nofun, rfl⟩
  | pair line _ _ _ ihkey ihvalue =>
    exact ⟨isEntry_pair (ihkey indent).1 (ihvalue indent).1 line, rfl⟩
  | @call name args line hname _ ih =>
    have hargs := isArguments_values (fun arg harg => (ih arg harg indent).1)
      fun arg harg => (ih arg harg indent).2.2
    -- A capital name without arguments is excluded here by `hcalls`.
    have hconstant : IsMethodName name ∨ IsConstantName name ∧ args ≠ [] :=
      hname.imp_right fun hconstant => ⟨hconstant.1, fun h => hcalls (hconstant.2.2 h)⟩
    refine ⟨isValue_call hconstant hargs line, ?_, rfl⟩
    rintro name args ⟨⟩
    exact ⟨_, hargs⟩
  | @keywordCall name args entries line hashLine hname _ hne _ ihargs ihentries =>
    have hargs := isArguments_keywords (fun arg harg => (ihargs arg harg indent).1)
      (fun arg harg => (ihargs arg harg indent).2.2) hne
      (fun entry hentry => (ihentries entry hentry indent).1)
      (fun entry hentry => (ihentries entry hentry indent).2) hashLine
    refine ⟨isValue_call (hname.imp_right fun h => ⟨h.1, by simp⟩) hargs line, ?_, rfl⟩
    rintro name args ⟨⟩
    exact ⟨_, hargs⟩
  | binary line hop _ _ ihleft ihright =>
    exact ⟨isValue_binary (ihleft indent).1 (ihright indent).1 hop line, nofun, rfl⟩
  | logical connective line _ _ ihleft ihright =>
    exact ⟨isValue_logical (ihleft indent).1 (ihright indent).1 connective line, nofun, rfl⟩
  | ternary line _ _ _ ihcondition ihtrue ihfalse =>
    exact ⟨isValue_ternary (ihcondition indent).1 (ihtrue indent).1 (ihfalse indent).1 line, nofun,
      rfl⟩
  | range exclusive line hbound _ _ ihlow ihhigh =>
    exact ⟨isValue_range exclusive line hbound (fun node hnode => (ihlow node hnode indent).1)
      fun node hnode => (ihhigh node hnode indent).1, nofun, rfl⟩
  | statement _ ih => exact (ih indent).1
  -- Of the call only the arguments are used: behind them stands `do`, where no value can end.
  | @block name args body callLine line hname _ _ ihcall ihbody =>
    obtain ⟨items, hargs⟩ := (ihcall indent).2.1 name args rfl
    exact isValue_block hname hargs
      (fun node hnode => (ihbody node hnode (indent + 1)).isStatement) callLine line

end LaneScript
