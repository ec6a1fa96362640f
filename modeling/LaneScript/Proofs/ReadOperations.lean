import LaneScript.Proofs.ReaderRuns

/-!
# Reading operations

The rules for operations form a ladder: each reads an operand with the rule below it and then looks
for its own operators.  Where none of them stands behind the operand, the rule adds nothing, so that
what the lowest rule reads is what the highest one returns; these are the lemmas `yields_signed`,
`yields_operation`, `yields_range`, `yields_ternary` and `yields_expression`.  What has to stand
behind an operand for this is `Closes`.

Where an operator of a level does stand there, `reads_operation_join` says that the operation is
read as one of this level: the rules for the tighter levels leave the operator, and those for the
looser ones find nothing behind the second operand.
-/

namespace LaneScript

open LaneScript.Parser
open List

/-! ### What stands behind a value -/

/-- The token can stand behind a value. -/
def Token.closesValue : Token → Bool
  | .comma | .rparen | .rbracket | .rbrace | .arrow | .newline | .done => true
  | .op (.binary _) | .op .question | .op .colon | .op (.range _) => true
  | _ => false

/-- The token can stand behind an expression. -/
def Token.closesExpression : Token → Bool
  | .comma | .rparen | .rbracket | .rbrace | .arrow | .newline | .done | .op .colon => true
  | _ => false

/-- A value ends before these tokens: the first of them can stand behind a value, is no argument of
a command, and no chain of calls goes on behind a line end. -/
structure Closes (here : Located) (ahead : List Located) : Prop where
  token : here.token.closesValue = true
  argument : here.startsArgument ((Cursor.mk here ahead).peek 1) = false
  chain : ((Cursor.mk here ahead).skip (· == .newline)).current.token ≠ .dot ∧
    ((Cursor.mk here ahead).skip (· == .newline)).current.token ≠ .safeDot

/-- Before a token that is no line end nothing has to be said about chains. -/
theorem closes_of_ne_newline {here : Located} {ahead : List Located}
    (htoken : here.token.closesValue = true) (hnewline : here.token ≠ .newline)
    (hargument : here.startsArgument ((Cursor.mk here ahead).peek 1) = false) :
    Closes here ahead := by
  have hskip : (Cursor.mk here ahead).skip (· == .newline) = ⟨here, ahead⟩ :=
    Cursor.skip_of_false (beq_eq_false_iff_ne.2 hnewline)
  refine ⟨htoken, hargument, ?_⟩
  rw [hskip]
  constructor <;> intro h <;> rw [show here.token = _ from h] at htoken <;>
    exact absurd htoken (by decide)

section Ladder

variable {s : State} {here first : Located} {ahead tokens : List Located} {bound : Nat}
  {Q : Node → Prop}

/-- Nothing is chained to a value that ends here. -/
theorem run_chain (read : Reader) (node : Node) (h : Closes here ahead) :
    (Rule.chain read node).run (s.at (here :: ahead)) = .ok (node, s.at (here :: ahead)) := by
  have hdot : (((Cursor.mk here ahead).skip (· == .newline)).current.token == .dot ||
      ((Cursor.mk here ahead).skip (· == .newline)).current.token == .safeDot) = false := by
    simp [h.chain]
  have htoken := h.token
  rw [Rule.chain, run_get_bind]
  simp only [State.cursor_at, Cursor.ofTokens_cons, hdot]
  show Parser.run (current >>= _) _ = _
  rw [run_current_bind]
  -- Four tokens go on with a chain, and none of them closes a value.
  split
  case h_5 => rfl
  all_goals
    rename_i hhere
    rw [hhere] at htoken
    exact Bool.noConfusion htoken

theorem yields_chain {node : Node} (h : Q node) (hcloses : Closes here ahead)
    (hbound : (here :: ahead).length < bound) :
    Yields (readAt bound (.chain node)) s [] (here :: ahead) Q :=
  yields_readAt (fun _ _ => ⟨node, run_chain _ node hcloses, h⟩) hbound

/-- A primary expression is an operand. -/
theorem yields_operand (h : Yields (Rule.primary (readAt bound)) s tokens (here :: ahead) Q)
    (hcloses : Closes here ahead) (hne : tokens ≠ [])
    (hbound : (tokens ++ here :: ahead).length ≤ bound) :
    Yields (Rule.operand (readAt bound)) s tokens (here :: ahead) Q := by
  have hlength := length_pos_iff.2 hne
  rw [length_append] at hbound
  exact h.bind_left fun node hnode => yields_chain hnode hcloses (by omega)

/-- The token is no operator in front of an operand, but may be a minus. -/
def Token.opensOperand (token : Token) : Bool :=
  token != .op .bang && token != .op .tilde && token != .op (.binary .add)

/-- An operand without an operator in front of it. -/
theorem yields_unary
    (h : Yields (Rule.operand (readAt bound)) s (first :: tokens) (here :: ahead) Q)
    (hfirst : first.token.opensOperand = true) :
    Yields (Rule.unary (readAt bound)) s (first :: tokens) (here :: ahead) Q := by
  simp only [Token.opensOperand, Bool.and_eq_true, bne_iff_ne] at hfirst
  obtain ⟨⟨hbang, htilde⟩, hplus⟩ := hfirst
  refine h.of_run_eq ?_
  rw [Rule.unary, cons_append, run_line_bind, eatOp, run_eat_bind_of_ne hbang]
  simp only [Bool.false_eq_true, if_false]
  rw [eatOp, run_eat_bind_of_ne htilde]
  simp only [Bool.false_eq_true, if_false]
  rw [eatOp, run_eat_bind_of_ne hplus]
  rfl

/-- No power follows. -/
theorem run_power (read : Reader) (base : Node) (h : here.token ≠ .op (.binary .pow)) :
    (Rule.power read base).run (s.at (here :: ahead)) = .ok (base, s.at (here :: ahead)) := by
  rw [Rule.power, run_line_bind, eatOp, run_eat_bind_of_ne h]
  rfl

/-- An operand without a minus, and without a power behind it. -/
theorem yields_signed
    (h : Yields (Rule.unary (readAt bound)) s (first :: tokens) (here :: ahead) Q)
    (hminus : first.token ≠ .op (.binary .sub)) (hpow : here.token ≠ .op (.binary .pow)) :
    Yields (Rule.signed (readAt bound)) s (first :: tokens) (here :: ahead) Q := by
  have hsigned : (first.token != .op (.binary .sub)) = true := bne_iff_ne.2 hminus
  have hpower : Yields (Rule.unary (readAt bound) >>= Rule.power (readAt bound)) s
      (first :: tokens) (here :: ahead) Q :=
    h.bind_left fun node hnode => ⟨node, run_power _ node hpow, hnode⟩
  refine hpower.of_run_eq ?_
  rw [Rule.signed, cons_append, run_current_bind, hsigned]
  rfl

/-- A power, whose exponent is read one level deeper. -/
theorem reads_power {base exponent : Node} {sign second : Located} {others : List Located}
    (hdepth : s.depth < maxNesting)
    (hbase : Reads (Rule.unary (readAt bound)) s (first :: tokens)
      (sign :: second :: others ++ here :: ahead) base)
    (hminus : first.token ≠ .op (.binary .sub)) (hsign : sign.token = .op (.binary .pow))
    (hsecond : second.token ≠ .newline)
    (hexponent : ∀ bound, (second :: others ++ here :: ahead).length ≤ bound →
      Reads (Rule.signed (readAt bound)) { s with depth := s.depth + 1 } (second :: others)
        (here :: ahead) exponent)
    (hbound : (second :: others ++ here :: ahead).length < bound) (line : Nat) :
    Reads (Rule.signed (readAt bound)) s (first :: tokens ++ sign :: second :: others)
      (here :: ahead) ⟨.binary .pow base exponent, line⟩ := by
  have hsigned : (first.token != .op (.binary .sub)) = true := bne_iff_ne.2 hminus
  obtain ⟨base', hrunBase, hbase'⟩ := hbase
  obtain ⟨exponent', hrun, hexponent'⟩ :=
    (yields_readAt (n := .signed) hexponent hbound).nested hdepth
  refine ⟨⟨.binary .pow base' exponent', sign.line⟩, ?_, ?_⟩
  -- The rule reads the base, eats the operator, and reads the exponent by its own rule again.
  · rw [Rule.signed, List.append_assoc, cons_append, run_current_bind, hsigned]
    refine (run_bind_ok hrunBase _).trans ?_
    rw [Rule.power, cons_append, run_line_bind, eatOp, run_eat_bind_of_eq hsign (by simp)]
    show Parser.run (skipNewlines >>= _) _ = _
    rw [cons_append, run_skipNewlines_bind hsecond]
    exact run_bind_ok hrun _
  · unfold Node.bare at *
    simp only [Node.mapLines, Form.mapLines, hbase', hexponent']

/-- A minus that touches a number is part of it. -/
theorem reads_negative {value : Int} {minus number : Located}
    (hminus : minus.token = .op (.binary .sub)) (hnumber : number.token = .int value)
    (hspaced : number.spaced = false) (hcloses : Closes here ahead)
    (hpow : here.token ≠ .op (.binary .pow))
    (hbound : (here :: ahead).length < bound) (line : Nat) :
    Reads (Rule.signed (readAt bound)) s [minus, number] (here :: ahead)
      ⟨.int (-value), line⟩ := by
  have hsigned : (minus.token != .op (.binary .sub)) = false := by simp [hminus]
  have hpower : (here.token == .op (.binary .pow)) = false := beq_eq_false_iff_ne.2 hpow
  obtain ⟨node, hrun, rfl⟩ := yields_chain (s := s) (Q := (· = ⟨.int (-value), minus.line⟩)) rfl
    hcloses hbound
  refine ⟨⟨.int (-value), minus.line⟩, ?_, rfl⟩
  rw [Rule.signed, cons_append, singleton_append, run_current_bind, hsigned]
  -- It looks at the number behind the minus, and behind that for a power.
  show Parser.run (peek 1 >>= _) _ = _
  rw [run_peek_bind, run_peek_bind]
  simp only [State.cursor_at, Cursor.ofTokens_cons, Cursor.peek, getElem?_cons_zero,
    getElem?_cons_succ, Option.getD_some, hspaced, hpower, Bool.or_self, Bool.false_eq_true,
    if_false, hnumber, Token.negated?]
  rw [run_advance_bind (by simp), run_advance_bind (by simp)]
  refine (run_bind_ok hrun _).trans ?_
  exact run_power _ _ hpow

/-! ### The levels -/

/-- No operator of a level stands here. -/
def Located.joinsNone (here : Located) (level : List BinaryOp) : Prop :=
  ∀ op ∈ level, here.token ≠ .op (.binary op)

theorem run_joining?_of_joinsNone {level : List BinaryOp} (h : here.joinsNone level) :
    (Rule.joining? level).run (s.at (here :: ahead)) = .ok (none, s.at (here :: ahead)) := by
  obtain ⟨token, line, spaced⟩ := here
  rw [Rule.joining?, run_current_bind]
  split
  case h_1 op htoken =>
    have hop : level.contains op = false := by
      rw [contains_eq_mem, decide_eq_false_iff_not]
      exact fun hmem => h op hmem htoken
    rw [hop]
    rfl
  case h_2 => rfl

theorem run_joining?_of_mem {level : List BinaryOp} {op : BinaryOp} (hpipe : s.pipeCloses = false)
    (htoken : here.token = .op (.binary op)) (hop : op ∈ level) :
    (Rule.joining? level).run (s.at (here :: ahead)) = .ok (some op, s.at (here :: ahead)) := by
  have hcontains : level.contains op = true := contains_iff_mem.2 hop
  rw [Rule.joining?, run_current_bind, htoken]
  show Parser.run (get >>= _) _ = _
  rw [run_get_bind]
  simp only [hcontains, show (s.at (here :: ahead)).pipeCloses = false from hpipe, Bool.and_false,
    Bool.not_false, Bool.and_true, if_true]
  rfl

/-- An operation of a level ends where none of its operators stands. -/
theorem yields_operationTail {level : List BinaryOp} {tighter : List (List BinaryOp)} {left : Node}
    (h : Q left) (hnone : here.joinsNone level) (hbound : (here :: ahead).length < bound) :
    Yields (readAt bound (.operationTail level tighter left)) s [] (here :: ahead) Q := by
  refine yields_readAt (fun bound _ => ⟨left, ?_, h⟩) hbound
  show (Rule.operationTail (readAt bound) level tighter left).run (s.at (here :: ahead)) = _
  rw [Rule.operationTail, run_line_bind, run_bind_ok (run_joining?_of_joinsNone hnone)]
  rfl

/-- Where no operator of the levels stands behind an operand, it is all that they read. -/
theorem yields_operation
    (h : Yields (Rule.signed (readAt bound)) s tokens (here :: ahead) Q) (hne : tokens ≠ [])
    (hbound : (tokens ++ here :: ahead).length ≤ bound) {levels : List (List BinaryOp)}
    (hnone : ∀ level ∈ levels, here.joinsNone level) :
    Yields (Rule.operation (readAt bound) levels) s tokens (here :: ahead) Q := by
  have hlength := length_pos_iff.2 hne
  rw [length_append] at hbound
  -- The tightest level is read first, so the induction is on the levels from the loosest inward.
  induction levels with
  | nil => exact h
  | cons level tighter ih =>
    obtain ⟨hlevel, htighter⟩ := forall_mem_cons.1 hnone
    exact (ih htighter).bind_left fun node hnode => yields_operationTail hnode hlevel (by omega)

theorem Node.bare_join {op : BinaryOp} {left right left' right' : Node} (line line' : Nat)
    (hleft : left.bare = left'.bare) (hright : right.bare = right'.bare) :
    (Node.mk (op.join left right) line).bare = (Node.mk (op.join left' right') line').bare := by
  unfold Node.bare at *
  cases op <;> simp only [BinaryOp.join, Node.mapLines, Form.mapLines, hleft, hright]

section Join

variable {level : List BinaryOp} {tighter : List (List BinaryOp)} {op : BinaryOp}
  {sign second : Located} {others : List Located} {left right : Node}

/-- Behind the first operand stands an operator of the level.  The second operand is read, and the
rest of the level goes on from both. -/
theorem yields_operationTail_sign {found : Node} (hpipe : s.pipeCloses = false)
    (hsign : sign.token = .op (.binary op)) (hop : op ∈ level) (hsecond : second.token ≠ .newline)
    (h : ∀ bound, (second :: others ++ here :: ahead).length < bound → Yields
      (readAt bound (.operation tighter) >>= fun right =>
        readAt bound (.operationTail level tighter ⟨op.join found right, sign.line⟩)) s
      (second :: others) (here :: ahead) Q)
    (hbound : (sign :: second :: others ++ here :: ahead).length < bound) :
    Yields (readAt bound (.operationTail level tighter found)) s (sign :: second :: others)
      (here :: ahead) Q := by
  refine yields_readAt (fun bound hbound => ?_) hbound
  rw [cons_append, length_cons] at hbound
  refine ((h bound hbound).advance (by simp)).of_run_eq ?_
  show (Rule.operationTail (readAt bound) level tighter found).run _ = _
  rw [Rule.operationTail, cons_append, run_line_bind,
    run_bind_ok (run_joining?_of_mem hpipe hsign hop), run_advance_bind (by simp),
    run_advance_bind (by simp), cons_append, run_skipNewlines_bind hsecond]

/-- A second operand with no further operator of the level behind it. -/
theorem yields_operationTail_join {found : Node} (hleft : found.bare = left.bare)
    (hpipe : s.pipeCloses = false) (hsign : sign.token = .op (.binary op)) (hop : op ∈ level)
    (hsecond : second.token ≠ .newline)
    (hright : ∀ bound, (second :: others ++ here :: ahead).length ≤ bound →
      Reads (Rule.operation (readAt bound) tighter) s (second :: others) (here :: ahead) right)
    (hnone : here.joinsNone level)
    (hbound : (sign :: second :: others ++ here :: ahead).length < bound) (line : Nat) :
    Reads (readAt bound (.operationTail level tighter found)) s (sign :: second :: others)
      (here :: ahead) ⟨op.join left right, line⟩ := by
  refine yields_operationTail_sign hpipe hsign hop hsecond (fun bound hbound => ?_) hbound
  have hoperand := yields_readAt (n := .operation tighter) hright hbound
  rw [length_append] at hbound
  refine hoperand.bind_left fun right' hright' => ?_
  exact yields_operationTail (Node.bare_join sign.line line hleft hright') hnone (by omega)

/-- The operation of two operands is read on the level of its operator. -/
theorem reads_operation_join {looser : List (List BinaryOp)}
    (hleft : Reads (Rule.signed (readAt bound)) s tokens (sign :: second :: others ++ here :: ahead)
      left) (hne : tokens ≠ [])
    (hpipe : s.pipeCloses = false) (hsign : sign.token = .op (.binary op)) (hop : op ∈ level)
    (hsecond : second.token ≠ .newline)
    (hright : ∀ bound, (second :: others ++ here :: ahead).length ≤ bound →
      Reads (Rule.operation (readAt bound) tighter) s (second :: others) (here :: ahead) right)
    (htighter : ∀ level ∈ tighter, sign.joinsNone level)
    (hnone : ∀ level' ∈ looser ++ level :: tighter, here.joinsNone level')
    (hbound : (tokens ++ (sign :: second :: others) ++ here :: ahead).length ≤ bound) (line : Nat) :
    Reads (Rule.operation (readAt bound) (looser ++ level :: tighter)) s
      (tokens ++ sign :: second :: others) (here :: ahead) ⟨op.join left right, line⟩ := by
  have hlength := length_pos_iff.2 hne
  simp only [length_append, length_cons] at hbound
  induction looser with
  -- On the level itself the first operand ends at the operator, which no tighter level knows.
  | nil =>
    have hfirst := yields_operation hleft hne (by simp; omega) htighter
    refine hfirst.bind fun found hfound => ?_
    exact yields_operationTail_join hfound hpipe hsign hop hsecond hright
      (hnone level (by simp)) (by simp; omega) line
  -- A looser level finds the whole operation as its first operand, and nothing behind it.
  | cons outer looser ih =>
    obtain ⟨houter, hlooser⟩ := forall_mem_cons.1 hnone
    refine (ih hlooser).bind_left fun node hnode => ?_
    exact yields_operationTail hnode houter (by simp; omega)

end Join

/-! ### Ranges -/

/-- No range follows. -/
theorem yields_range
    (h : Yields (Rule.operation (readAt bound) BinaryOp.levels) s tokens (here :: ahead) Q)
    (hdots : ∀ exclusive, here.token ≠ .op (.range exclusive)) :
    Yields (Rule.range (readAt bound)) s tokens (here :: ahead) Q := by
  refine h.bind_left fun low hlow => ⟨low, ?_, hlow⟩
  rw [nil_append, run_current_bind]
  split
  case h_1 exclusive htoken => exact absurd htoken (hdots exclusive)
  case h_2 => rfl

theorem Node.bare_range {low low' : Node} {high high' : Option Node} (exclusive : Bool)
    (line line' : Nat) (hlow : low.bare = low'.bare)
    (hhigh : high.map Node.bare = high'.map Node.bare) :
    (Node.mk (.range (some low) high exclusive) line).bare =
      (Node.mk (.range (some low') high' exclusive) line').bare := by
  unfold Node.bare at *
  cases high <;> cases high' <;> simp_all [Node.mapLines, Form.mapLines, mapLines?]

/-- A range without an end. -/
theorem reads_range_open {low : Node} {exclusive : Bool} {dots : Located}
    (hlow : Reads (Rule.operation (readAt bound) BinaryOp.levels) s tokens (dots :: here :: ahead)
      low) (hdots : dots.token = .op (.range exclusive))
    (hhere : here.token.startsExpression = false) (line : Nat) :
    Reads (Rule.range (readAt bound)) s (tokens ++ [dots]) (here :: ahead)
      ⟨.range (some low) none exclusive, line⟩ := by
  obtain ⟨low', hrun, hlow'⟩ := hlow
  refine ⟨⟨.range (some low') none exclusive, dots.line⟩, ?_, Node.bare_range _ _ _ hlow' rfl⟩
  rw [Rule.range, List.append_assoc, singleton_append, run_bind_ok hrun, run_current_bind,
    hdots]
  show Parser.run (advance >>= _) _ = _
  rw [run_advance_bind (by simp), run_startsExpression_bind, hhere]
  rfl

/-- A range with an end. -/
theorem reads_range_closed {low high : Node} {exclusive : Bool} {dots second : Located}
    {others : List Located}
    (hlow : Reads (Rule.operation (readAt bound) BinaryOp.levels) s tokens
      (dots :: second :: others ++ here :: ahead) low)
    (hdots : dots.token = .op (.range exclusive)) (hsecond : second.token.startsExpression = true)
    (hhigh : ∀ bound, (second :: others ++ here :: ahead).length ≤ bound →
      Reads (Rule.operation (readAt bound) BinaryOp.levels) s (second :: others) (here :: ahead)
        high)
    (hbound : (second :: others ++ here :: ahead).length < bound) (line : Nat) :
    Reads (Rule.range (readAt bound)) s (tokens ++ dots :: second :: others) (here :: ahead)
      ⟨.range (some low) (some high) exclusive, line⟩ := by
  refine hlow.bind fun low' hlow' => ?_
  obtain ⟨high', hrun, hhigh'⟩ :=
    yields_readAt (n := .operation BinaryOp.levels) hhigh hbound
  refine ⟨⟨.range (some low') (some high') exclusive, dots.line⟩, ?_,
    Node.bare_range _ _ _ hlow' (congrArg some hhigh')⟩
  rw [cons_append, run_current_bind, hdots]
  show Parser.run (advance >>= _) _ = _
  rw [run_advance_bind (by simp), cons_append, run_startsExpression_bind, hsecond]
  exact run_bind_ok hrun _

/-! ### The ternary -/

/-- No ternary follows. -/
theorem yields_ternary (h : Yields (Rule.range (readAt bound)) s tokens (here :: ahead) Q)
    (hquestion : here.token ≠ .op .question) :
    Yields (Rule.ternary (readAt bound)) s tokens (here :: ahead) Q := by
  refine h.bind_left fun condition hcondition => ⟨condition, ?_, hcondition⟩
  rw [nil_append, run_line_bind, eatOp, run_eat_bind_of_ne hquestion]
  rfl

/-- A condition and its two values.  Each of these is read one level deeper. -/
theorem reads_ternary {condition whenTrue whenFalse : Node} {question colon : Located}
    {second third : Located} {others more : List Located} (hdepth : s.depth < maxNesting)
    (hcondition : Reads (Rule.range (readAt bound)) s tokens
      (question :: second :: others ++ (colon :: third :: more ++ here :: ahead)) condition)
    (hquestion : question.token = .op .question) (hsecond : second.token ≠ .newline)
    (htrue : ∀ bound,
      (second :: others ++ (colon :: third :: more ++ here :: ahead)).length ≤ bound →
      Reads (Rule.ternary (readAt bound)) { s with depth := s.depth + 1 } (second :: others)
        (colon :: third :: more ++ here :: ahead) whenTrue)
    (hcolon : colon.token = .op .colon) (hthird : third.token ≠ .newline)
    (hfalse : ∀ bound, (third :: more ++ here :: ahead).length ≤ bound →
      Reads (Rule.ternary (readAt bound)) { s with depth := s.depth + 1 } (third :: more)
        (here :: ahead) whenFalse)
    (hbound : (second :: others ++ (colon :: third :: more ++ here :: ahead)).length < bound)
    (line : Nat) :
    Reads (Rule.ternary (readAt bound)) s
      (tokens ++ question :: (second :: others ++ colon :: third :: more)) (here :: ahead)
      ⟨.ternary condition whenTrue whenFalse, line⟩ := by
  have hshort : (third :: more ++ here :: ahead).length < bound := by
    simp only [length_append, length_cons] at hbound ⊢
    omega
  obtain ⟨condition', hrunCondition, hcondition'⟩ := hcondition
  obtain ⟨whenTrue', hrunTrue, htrue'⟩ :=
    (yields_readAt (n := .ternary) htrue hbound).nested hdepth
  obtain ⟨whenFalse', hrunFalse, hfalse'⟩ :=
    (yields_readAt (n := .ternary) hfalse hshort).nested hdepth
  refine ⟨⟨.ternary condition' whenTrue' whenFalse', question.line⟩, ?_, ?_⟩
  -- One after the other: the condition, the question mark, a value, the colon, the other value.
  · rw [Rule.ternary, List.append_assoc, cons_append, List.append_assoc]
    refine (run_bind_ok hrunCondition _).trans ?_
    rw [cons_append, run_line_bind, eatOp, run_eat_bind_of_eq hquestion (by simp)]
    show Parser.run (skipNewlines >>= _) _ = _
    rw [cons_append, run_skipNewlines_bind hsecond]
    refine (run_bind_ok hrunTrue _).trans ?_
    rw [cons_append, run_skipNewlines_bind (by rw [hcolon]; decide), eatOp,
      run_eat_bind_of_eq hcolon (by simp)]
    show Parser.run (skipNewlines >>= _) _ = _
    rw [cons_append, run_skipNewlines_bind hthird]
    exact run_bind_ok hrunFalse _
  · unfold Node.bare at *
    simp only [Node.mapLines, Form.mapLines, hcondition', htrue', hfalse']

/-! ### Expressions -/

theorem eq_colon_of_closesExpression {operator : Operator}
    (h : (Token.op operator).closesExpression = true) : operator = .colon := by
  cases operator with
  | colon => rfl
  | _ => exact Bool.noConfusion h

theorem joinsNone_of_closesExpression (h : here.token.closesExpression = true)
    (level : List BinaryOp) : here.joinsNone level := by
  intro op _ htoken
  rw [htoken] at h
  exact Operator.noConfusion (eq_colon_of_closesExpression h)

/-- An operation that no range and no ternary follows. -/
theorem yields_ternary_of_operation
    (h : Yields (Rule.operation (readAt bound) BinaryOp.levels) s tokens (here :: ahead) Q)
    (hcloses : here.token.closesExpression = true) :
    Yields (Rule.ternary (readAt bound)) s tokens (here :: ahead) Q := by
  have hop : ∀ operator, here.token = .op operator → operator = .colon := by
    intro operator htoken
    exact eq_colon_of_closesExpression (htoken ▸ hcloses)
  refine yields_ternary (yields_range h fun exclusive htoken => ?_) fun htoken => ?_
  · exact Operator.noConfusion (hop _ htoken)
  · exact Operator.noConfusion (hop _ htoken)

/-- An expression without an operation: its one operand. -/
theorem yields_ternary_of_signed
    (h : Yields (Rule.signed (readAt bound)) s tokens (here :: ahead) Q) (hne : tokens ≠ [])
    (hbound : (tokens ++ here :: ahead).length ≤ bound)
    (hcloses : here.token.closesExpression = true) :
    Yields (Rule.ternary (readAt bound)) s tokens (here :: ahead) Q :=
  yields_ternary_of_operation
    (yields_operation h hne hbound fun level _ => joinsNone_of_closesExpression hcloses level)
    hcloses

/-- No assignment follows; an expression is read one level deeper. -/
theorem yields_expression (hdepth : s.depth < maxNesting)
    (h : Yields (Rule.ternary (readAt bound)) { s with depth := s.depth + 1 } tokens
      (here :: ahead) Q)
    (hcloses : here.token.closesExpression = true) :
    Yields (Rule.expression (readAt bound)) s tokens (here :: ahead) Q := by
  refine Yields.nested hdepth (h.bind_left fun left hleft => ⟨left, ?_, hleft⟩)
  -- Behind the expression stands no operator that assigns.
  have hassigning : ∀ s : State, Rule.assigning?.run (s.at (here :: ahead)) =
      .ok (none, s.at (here :: ahead)) := by
    intro s
    rw [Rule.assigning?, run_current_bind]
    split
    case h_1 operator htoken =>
      rw [htoken] at hcloses
      rw [eq_colon_of_closesExpression hcloses]
      rfl
    case h_2 => rfl
  exact run_bind_ok (hassigning _) _

end Ladder

end LaneScript
