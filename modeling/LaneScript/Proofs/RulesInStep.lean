import LaneScript.Proofs.ConstructsInStep

/-!
# The rules of the grammar in step

The rules for expressions and statements, which ask for one another and for the constructs, are in
step when their readers are.  This ties the knot: in `readersInStep_readAt` two readers that allow
requests to be nested deeply enough are in step, by induction on how deeply the first one does.
-/

namespace LaneScript

open LaneScript.Parser

section Rules

variable {m : Move} {b : Nat} {read read' : Reader} (hread : ReadersInStep m b read read')
include hread

/-! ### Primary expressions -/

omit hread in
/-- What a first token opens is in step, or it opens nothing on any line. -/
def OpensInStep (m : Move) (limit : Nat) : Option (Parser Node) → Option (Parser Node) → Prop
  | some form, some form' => InStep m limit form form' (Node.mapLines m.line)
  | none, none => True
  | _, _ => False

omit hread in
/-- Both tokens open something, or none does. -/
theorem OpensInStep.cases {form form' : Option (Parser Node)} (h : OpensInStep m b form form') :
    form = none ∧ form' = none ∨ ∃ found found', form = some found ∧ form' = some found' ∧
      InStep m b found found' (Node.mapLines m.line) := by
  cases form with
  | none =>
    cases form' with
    | none => exact .inl ⟨rfl, rfl⟩
    | some found' => exact h.elim
  | some found =>
    cases form' with
    | none => exact h.elim
    | some found' => exact .inr ⟨found, found', rfl, rfl, h⟩

omit hread in
/-- What is read becomes a node on the given line. -/
theorem InStep.node {α α' : Type} {p : Parser α} {p' : Parser α'} {σ : α → α'} {taken : α → Nat}
    {line : Nat} {form : α → Form} {form' : α' → Form} (h : InStep m b p p' σ taken)
    (hform : ∀ a, form' (σ a) = (form a).mapLines m.line) :
    InStep m b (p >>= fun a => pure ⟨form a, line⟩) (p' >>= fun a => pure ⟨form' a, m.line line⟩)
      (Node.mapLines m.line) :=
  h.map (fun a => congrArg (Node.mk · (m.line line)) (hform a)) fun _ => Nat.zero_le _

/-- The same words begin constructs in both places. -/
theorem opensInStep_construct? (line : Nat) (word : String) :
    OpensInStep m b (Rule.construct? read line word)
      (Rule.construct? read' (m.line line) word) := by
  unfold Rule.construct?
  split
  · exact inStep_conditional hread line
  · exact inStep_unlessThen hread line
  · exact inStep_loop hread false line
  · exact inStep_loop hread true line
  · exact inStep_forEach hread line
  · exact inStep_caseOf hread line
  · exact (inStep_clauses hread).node fun _ => rfl
  · exact inStep_method hread line
  · exact inStep_classDef hread line
  · exact inStep_moduleDef hread line
  · trivial

theorem inStep_definedForm :
    InStep m b (Rule.definedForm read) (Rule.definedForm read') (Form.mapLines m.line) := by
  refine (inStep_eat rfl).bind fun paren => (hread .expression trivial).bind fun operand => ?_
  refine .ite_bool rfl ?_ (inStep_pure rfl rfl)
  exact (inStep_expect rfl _).bind fun _ => inStep_pure rfl rfl

/-- A word that begins an expression is taken. -/
theorem inStepAt_word (text : String) (line : Nat) :
    InStepAt (·.token ≠ .done) m (b + 1) (Rule.word read text line)
      (Rule.word read' text (m.line line)) (Node.mapLines m.line) fun _ => 1 := by
  have hne : ∀ here : Located, here.token ≠ .done → here.token ≠ .done := fun _ h => h
  unfold Rule.word
  -- the cases in the order in which the rule tries them
  cases Rule.atom? text with
  | some atom => exact .advance_behind hne (inStep_pure rfl rfl)
  | none =>
    rcases (opensInStep_construct? hread line text).cases with
      ⟨hnone, hnone'⟩ | ⟨construct, construct', hsome, hsome', hconstruct⟩
    case inr =>
      rw [hsome, hsome']
      exact .advance_behind hne hconstruct
    rw [hnone, hnone']
    cases Rule.jump? text with
    | some jump =>
      refine .advance_behind hne (.startsExpression_bind fun starts => ?_)
      refine .ite_bool rfl ?_ (inStep_pure rfl rfl)
      exact (hread .expression trivial).bind fun _ => inStep_pure rfl rfl
    | none =>
      refine .ite_bool rfl ?_ (.ite_bool rfl ?_ (.ite_bool rfl ?_ (.ite_bool rfl ?_ ?_)))
      · refine .advance_behind hne ((inStep_arguments? hread).bind fun args => ?_)
        refine inStep_pure ?_ rfl
        cases args <;> rfl
      · exact .advance_behind hne ((inStep_arguments? hread).bind fun _ => inStep_pure rfl rfl)
      · exact .advance_behind hne ((inStep_definedForm hread).bind fun _ => inStep_pure rfl rfl)
      · exact .advance_behind hne ((hread .expression trivial).bind fun _ => inStep_pure rfl rfl)
      · refine .ite_bool rfl inStep_unexpected (.advance_behind hne ?_)
        refine .isLocal_bind text fun bound => .isAtCallParen_bind fun paren => ?_
        refine .ite_bool rfl (inStep_pure rfl rfl) ?_
        exact inStep_call hread none text false line

theorem inStep_parenthesized (line : Nat) :
    InStep m b (Rule.parenthesized read line) (Rule.parenthesized read' (m.line line))
      (Node.mapLines m.line) := by
  refine InStep.bind (InStepAt.allowingDo (hread (.statements []) trivial)) fun body => ?_
  refine inStep_skipTerminators.bind fun _ => (inStep_expect rfl _).bind fun _ => ?_
  match body with
  | [] => exact inStep_pure rfl rfl
  | [only] => exact inStep_pure rfl rfl
  | _ :: _ :: _ => exact inStep_pure rfl rfl

theorem inStep_constant (name : String) (line : Nat) :
    InStep m b (Rule.constant read name line) (Rule.constant read' name (m.line line))
      (Node.mapLines m.line) := by
  refine .isAtCallParen_bind fun paren => .ite_bool rfl ?_ (inStep_pure rfl rfl)
  exact inStep_call hread none name false line

omit hread in
/-- A constant must stand behind the colons. -/
theorem inStep_outermost (line : Nat) :
    InStep m b (Rule.outermost line) (Rule.outermost (m.line line)) (Node.mapLines m.line) := by
  refine .current_bind fun here _ _ => ?_
  obtain ⟨token, tokenLine, spaced⟩ := here
  cases token with
  | const name => exact inStep_advance.bind fun _ => inStep_pure rfl rfl
  | _ => exact inStep_unexpected

omit hread in
theorem wordArray_mapLines (f : Nat → Nat) (symbols : Bool) (items : List String) (line : Nat) :
    (Rule.wordArray symbols items line).mapLines f = Rule.wordArray symbols items (f line) := by
  unfold Rule.wordArray
  rw [Form.mapLines, mapLinesAll_eq_map, List.map_map]
  congr 2
  funext item
  cases symbols <;> rfl

/-- What a token begins, by the token. -/
theorem opensInStep_formBehind? (line : Nat) {token : Token} (h : CodesWithin b token.parts) :
    OpensInStep m b (Rule.formBehind? read line token)
      (Rule.formBehind? read' (m.line line) (token.mapLines m.line)) := by
  have hpure : ∀ form : Form, InStep m b (pure ⟨form, line⟩ : Parser Node)
      (pure ⟨form.mapLines m.line, m.line line⟩) (Node.mapLines m.line) :=
    fun _ => inStep_pure rfl rfl
  cases token with
  | int value => exact hpure (.int value)
  | bigInt text => exact hpure (.bigInt text)
  | float value => exact hpure (.float value)
  | str parts => exact (inStep_strings hread h).node fun _ => rfl
  | command parts => exact (inStep_segments hread h b).node fun _ => rfl
  | symbol name => exact hpure (.sym name)
  | words symbols items =>
    have hwords := hpure (Rule.wordArray symbols items line)
    rw [wordArray_mapLines] at hwords
    exact hwords
  | regex source flags => exact hpure (.regex source flags)
  | var sigil name => exact hpure (.var sigil name)
  | const name => exact inStep_constant hread name line
  | scope => exact inStep_outermost line
  | lparen => exact inStep_parenthesized hread line
  | lbracket => exact (inStep_items hread rfl _).node fun _ => rfl
  | lbrace => exact (inStep_entries hread).node fun _ => rfl
  | lambda => exact inStep_lambda hread line
  | op operator =>
    cases operator with
    | range exclusive => exact (hread (.operation _) trivial).node fun _ => rfl
    | _ => trivial
  | _ => trivial

omit hread in
/-- Code in a token that can still be taken is shorter than what there is to read behind it. -/
theorem codesWithin_of_weight_le {token : Token} (h : token.weight ≤ b + 1) :
    CodesWithin b token.parts := by
  intro source line hcode
  have hle := length_le_partsWeight hcode
  rw [token.weight_eq] at h
  omega

/-- A token that opens a form is taken. -/
theorem inStepAt_formBehind {here : Located} (hweight : here.token.weight ≤ b + 1) :
    InStepAt (· = here) m (b + 1)
      (match Rule.formBehind? read here.line here.token with
        | some form => do
          advance
          form
        | none => unexpected)
      (match Rule.formBehind? read' (m.line here.line) (here.token.mapLines m.line) with
        | some form => do
          advance
          form
        | none => unexpected) (Node.mapLines m.line) fun _ => 1 := by
  have hcodes : CodesWithin b here.token.parts := codesWithin_of_weight_le hweight
  rcases (opensInStep_formBehind? hread here.line hcodes).cases with
    ⟨hnone, hnone'⟩ | ⟨form, form', hsome, hsome', hform⟩
  · rw [hnone, hnone']
    exact inStep_unexpected
  · rw [hsome, hsome']
    refine .advance_behind (ne_done_of_eq ?_) hform
    -- the end of the input opens nothing
    intro hdone
    rw [hdone] at hsome
    cases hsome

theorem inStep_primary :
    InStep m (b + 1) (Rule.primary read) (Rule.primary read') (Node.mapLines m.line)
      fun _ => 1 := by
  refine .current_bind fun here _ hweight => ?_
  have hform := inStepAt_formBehind hread hweight
  obtain ⟨token, line, spaced⟩ := here
  cases token with
  | word text => exact (inStepAt_word hread text line).weaken (ne_done_of_eq Token.noConfusion)
  | _ => exact hform

/-! ### Operations -/

theorem inStep_operand :
    InStep m (b + 1) (Rule.operand read) (Rule.operand read') (Node.mapLines m.line)
      fun _ => 1 :=
  (inStep_primary hread).bind_behind (fun _ => Nat.one_pos) fun node => hread (.chain node) trivial

theorem inStep_unary :
    InStep m (b + 1) (Rule.unary read) (Rule.unary read') (Node.mapLines m.line)
      fun _ => 1 := by
  have hnested := InStepAt.nested (hread .unary trivial)
  refine .line_bind fun line => ?_
  refine .eat_behind rfl (hnested.bind fun _ => inStep_pure rfl rfl) ?_
  refine .eat_behind rfl (hnested.bind fun _ => inStep_pure rfl rfl) ?_
  refine .eat_behind rfl (hnested.bind fun _ => inStep_pure rfl rfl) ?_
  exact inStep_operand hread

/-- The exponent is read behind the stars, with its own sign. -/
theorem inStep_power (base : Node) :
    InStep m b (Rule.power read base) (Rule.power read' (base.mapLines m.line))
      (Node.mapLines m.line) := by
  refine .line_bind fun line => .eat_ite rfl ?_ (inStep_pure rfl rfl)
  refine inStep_skipNewlines.bind fun _ => ?_
  exact (InStepAt.nested (hread .signed trivial)).bind fun _ => inStep_pure rfl rfl

omit hread in
theorem negated?_mapLines (f : Nat → Nat) (token : Token) :
    (token.mapLines f).negated? = token.negated? := by
  cases token <;> rfl

omit hread in
/-- A number has no lines inside. -/
theorem mapLines_of_negated? {token : Token} {form : Form} (h : token.negated? = some form)
    (f : Nat → Nat) : form.mapLines f = form := by
  unfold Token.negated? at h
  split at h
  · cases h
    rfl
  · cases h
    rfl
  · cases h

/-- A minus sign before a number belongs to it, unless a power follows. -/
theorem inStep_signed :
    InStep m (b + 1) (Rule.signed read) (Rule.signed read') (Node.mapLines m.line)
      fun _ => 1 := by
  refine .current_bind fun here _ _ => .ite ?_ (fun _ => ?_) fun hminus => ?_
  · have hat := Token.beq_mapLines (rfl : (Token.op (.binary .sub)).isPlain = true) m.line
      here.token
    exact Bool.eq_iff_iff.1 (congrArg (!·) hat)
  · refine (inStep_unary hread).bind_behind (fun _ => Nat.one_pos) fun base => ?_
    exact inStep_power hread base
  · have hne : here.token ≠ .done := by
      intro hdone
      rw [hdone] at hminus
      exact hminus rfl
    refine .peek_bind 1 fun number => .peek_bind 2 fun behind => ?_
    refine .advance_behind (ne_done_of_eq hne) ?_
    -- whether the minus belongs to a number is seen from the two tokens behind it
    have hliteral : (if (number.mapLines m.line).spaced ||
          (behind.mapLines m.line).token == .op (.binary .pow) then none
        else (number.mapLines m.line).token.negated?) =
        if number.spaced || behind.token == .op (.binary .pow) then none
        else number.token.negated? := by
      have hat := Token.beq_mapLines (rfl : (Token.op (.binary .pow)).isPlain = true) m.line
        behind.token
      exact if_congr (Bool.eq_iff_iff.1 (congrArg (number.spaced || ·) hat)) rfl
        (negated?_mapLines m.line number.token)
    rw [hliteral]
    generalize hfound : (if (number.spaced || behind.token == .op (.binary .pow)) = true then none
      else number.token.negated?) = literal
    cases literal with
    | none => exact (InStepAt.nested (hread .signed trivial)).bind fun _ => inStep_pure rfl rfl
    | some form =>
      have hform : form.mapLines m.line = form := by
        split at hfound
        · cases hfound
        · exact mapLines_of_negated? hfound _
      have hchain := hread (.chain ⟨form, here.line⟩) trivial
      change InStep m b _ (read' (.chain ⟨form.mapLines m.line, m.line here.line⟩)) _ _ at hchain
      rw [hform] at hchain
      exact inStep_advance.bind fun _ => hchain.bind fun base => inStep_power hread base

/-- An operand of the tighter levels, then what is joined to it. -/
theorem inStep_operation (levels : List (List BinaryOp)) :
    InStep m (b + 1) (Rule.operation read levels) (Rule.operation read' levels)
      (Node.mapLines m.line) fun _ => 1 := by
  -- the levels are gone down without a request; the innermost operand takes the token
  induction levels with
  | nil => exact inStep_signed hread
  | cons level tighter ih =>
    exact ih.bind_behind (fun _ => Nat.one_pos) fun first =>
      hread (.operationTail level tighter first) trivial

omit hread in
theorem InStepAt.joining?_bind {α α' : Type} {P : Located → Prop} {limit : Nat}
    {f : Option BinaryOp → Parser α} {f' : Option BinaryOp → Parser α'} {τ : α → α'}
    {least : α → Nat} (level : List BinaryOp)
    (hsome : ∀ op, InStepAt (·.token ≠ .done) m limit (f (some op)) (f' (some op)) τ least)
    (hnone : InStepAt P m limit (f none) (f' none) τ least) :
    InStepAt P m limit (Rule.joining? level >>= f) (Rule.joining? level >>= f') τ least := by
  rw [Rule.joining?, bind_assoc, bind_assoc]
  have hnothing : ∀ here, P here → InStepAt (· = here) m limit (f none) (f' none) τ least := by
    intro here hhere
    refine hnone.weaken ?_
    rintro _ rfl
    exact hhere
  refine .current_bind fun here hhere _ => ?_
  obtain ⟨token, line, spaced⟩ := here
  cases token with
  | op operator =>
    cases operator with
    | binary op =>
      have hfound : ∀ closes : Bool, InStepAt (· = ⟨.op (.binary op), line, spaced⟩) m limit
          ((if level.contains op && !(op == .bitOr && closes) then pure (some op)
            else pure none) >>= f)
          ((if level.contains op && !(op == .bitOr && closes) then pure (some op)
            else pure none) >>= f') τ least := by
        intro closes
        split
        · exact (hsome op).weaken (ne_done_of_eq Token.noConfusion)
        · exact hnothing _ hhere
      -- a bar joins nothing while it closes parameters
      change InStepAt _ m limit
        (get >>= fun s => (if level.contains op && !(op == .bitOr && s.pipeCloses) then
          pure (some op) else pure none) >>= f)
        (get >>= fun s => (if level.contains op && !(op == .bitOr && s.pipeCloses) then
          pure (some op) else pure none) >>= f') τ least
      exact .get_bind fun s _ => hfound s.pipeCloses
    | _ => exact hnothing _ hhere
  | _ => exact hnothing _ hhere

omit hread in
theorem join_mapLines (f : Nat → Nat) (op : BinaryOp) (left right : Node) :
    (op.join left right).mapLines f = op.join (left.mapLines f) (right.mapLines f) := by
  cases op <;> rfl

/-- The sign is taken, so the operand behind it is within the bound. -/
theorem inStep_operationTail (level : List BinaryOp) (tighter : List (List BinaryOp))
    (left : Node) :
    InStep m (b + 1) (Rule.operationTail read level tighter left)
      (Rule.operationTail read' level tighter (left.mapLines m.line)) (Node.mapLines m.line) := by
  refine .line_bind fun line => .joining?_bind level (fun op => ?_) (inStep_pure rfl rfl)
  refine .advance_behind (fun _ h => h) (inStep_skipNewlines.bind fun _ => ?_)
  refine (hread (.operation tighter) trivial).bind fun right => ?_
  have htail := hread (.operationTail level tighter ⟨op.join left right, line⟩) trivial
  have hjoin : (⟨op.join left right, line⟩ : Node).mapLines m.line =
      ⟨op.join (left.mapLines m.line) (right.mapLines m.line), m.line line⟩ :=
    congrArg (Node.mk · (m.line line)) (join_mapLines m.line op left right)
  change InStep m b _ (read' (.operationTail level tighter (Node.mapLines _ _))) _ _ at htail
  rw [hjoin] at htail
  exact htail

theorem inStep_range :
    InStep m (b + 1) (Rule.range read) (Rule.range read') (Node.mapLines m.line)
      fun _ => 1 := by
  refine (inStep_operation hread _).bind_behind (fun _ => Nat.one_pos) fun low => ?_
  refine .current_bind fun here _ _ => ?_
  obtain ⟨token, line, spaced⟩ := here
  cases token with
  | op operator =>
    cases operator with
    | range exclusive =>
      -- without an expression behind the dots the range is open
      refine inStep_advance.bind fun _ => .startsExpression_bind fun starts => ?_
      refine .ite_bool rfl ?_ (inStep_pure rfl rfl)
      exact (hread (.operation _) trivial).bind fun _ => inStep_pure rfl rfl
    | _ => exact inStep_pure rfl rfl
  | _ => exact inStep_pure rfl rfl

theorem inStep_ternary :
    InStep m (b + 1) (Rule.ternary read) (Rule.ternary read') (Node.mapLines m.line)
      fun _ => 1 := by
  have hnested := InStepAt.nested (hread .ternary trivial)
  refine (inStep_range hread).bind_behind (fun _ => Nat.one_pos) fun condition => ?_
  refine .line_bind fun line => .eat_ite rfl ?_ (inStep_pure rfl rfl)
  refine inStep_skipNewlines.bind fun _ => hnested.bind fun whenTrue => ?_
  refine inStep_skipNewlines.bind fun _ => .eat_bindAt rfl (Nat.le_succ _) ?_ (.expected_bind _)
  refine inStep_skipNewlines.bind fun _ => ?_
  exact hnested.bind fun whenFalse => inStep_pure rfl rfl

omit hread in
/-- What can be assigned to is told by the form of the node. -/
theorem inStep_target (node : Node) :
    InStep m b (Rule.target node) (Rule.target (node.mapLines m.line)) (Node.mapLines m.line) := by
  obtain ⟨form, line⟩ := node
  cases form with
  | call receiver name args safe =>
    cases args with
    | nil =>
      cases receiver with
      | none => exact (inStep_declare name).bind fun _ => inStep_pure rfl rfl
      | some receiver => exact inStep_pure rfl rfl
    | cons arg args => cases receiver <;> exact inStep_fail Fault.noConfusion
  | localVar | var | const | index => exact inStep_pure rfl rfl
  | _ => exact inStep_fail Fault.noConfusion

omit hread in
/-- What an operator assigns is the same on all lines. -/
theorem InStep.assigning?_bind {α α' : Type} {limit : Nat}
    {f : Option (Node → Node → Form) → Parser α} {f' : Option (Node → Node → Form) → Parser α'}
    {τ : α → α'} {least : α → Nat}
    (hsome : ∀ assign : Node → Node → Form,
      (∀ place value, assign (place.mapLines m.line) (value.mapLines m.line) =
        (assign place value).mapLines m.line) →
      InStep m limit (f (some assign)) (f' (some assign)) τ least)
    (hnone : InStep m limit (f none) (f' none) τ least) :
    InStep m limit (Rule.assigning? >>= f) (Rule.assigning? >>= f') τ least := by
  rw [Rule.assigning?, bind_assoc, bind_assoc]
  refine .current_bind fun here _ _ => ?_
  obtain ⟨token, line, spaced⟩ := here
  cases token with
  | op operator =>
    cases operator with
    | assign => exact (hsome _ fun _ _ => rfl).here
    | compound op => exact (hsome _ fun _ _ => rfl).here
    | _ => exact hnone.here
  | _ => exact hnone.here

theorem inStep_expression :
    InStep m (b + 1) (Rule.expression read) (Rule.expression read') (Node.mapLines m.line)
      fun _ => 1 := by
  refine InStepAt.nested ((inStep_ternary hread).bind_behind (fun _ => Nat.one_pos) fun left => ?_)
  refine .assigning?_bind (fun assign hassign => ?_) (inStep_pure rfl rfl)
  refine (inStep_target left).bind fun place => inStep_advance.bind fun _ => ?_
  refine inStep_skipNewlines.bind fun _ => (hread .expression trivial).bind fun value => ?_
  obtain ⟨form, line⟩ := left
  exact inStep_pure (congrArg (Node.mk · (m.line line)) (hassign place value)) rfl

theorem inStep_argumentValue :
    InStep m (b + 1) (Rule.argumentValue read) (Rule.argumentValue read')
      (Node.mapLines m.line) fun _ => 1 :=
  .isAt_bind rfl fun _ => .ite_bool rfl (inStep_primary hread) (inStep_expression hread)

/-- An argument is a splat, a pair or a value, and each takes a token. -/
theorem inStep_argument :
    InStep m (b + 1) (Rule.argument read) (Rule.argument read') (Node.mapLines m.line)
      fun _ => 1 := by
  have hternary := hread .ternary trivial
  refine .current_bind fun here _ _ => ?_
  refine .eat_behind rfl (hternary.bind fun _ => inStep_pure rfl rfl) ?_
  refine .eat_behind rfl (hternary.bind fun _ => inStep_pure rfl rfl) ?_
  refine .eat_behind rfl (.startsExpression_bind fun starts => .ite_bool rfl ?_ ?_) ?_
  · exact hternary.bind fun _ => inStep_pure rfl rfl
  · exact inStep_pure rfl rfl
  obtain ⟨token, line, spaced⟩ := here
  -- a value, or a key if an arrow stands behind it
  have hvalue : InStep m (b + 1) (do
        let value ← Rule.argumentValue read
        if ← eat .arrow then
          skipNewlines
          let mapped ← read .argumentValue
          return Node.pair value mapped line
        else return value) (do
        let value ← Rule.argumentValue read'
        if ← eat .arrow then
          skipNewlines
          let mapped ← read' .argumentValue
          return Node.pair value mapped (m.line line)
        else return value) (Node.mapLines m.line) fun _ => 1 := by
    refine (inStep_argumentValue hread).bind_behind (fun _ => Nat.one_pos) fun value => ?_
    refine .eat_ite rfl (inStep_skipNewlines.bind fun _ => ?_) (inStep_pure rfl rfl)
    exact (hread .argumentValue trivial).bind fun _ => inStep_pure rfl rfl
  cases token with
  | label key =>
    refine .advance_behind (ne_done_of_eq Token.noConfusion) (inStep_skipNewlines.bind fun _ => ?_)
    exact (hread .argumentValue trivial).bind fun _ => inStep_pure rfl rfl
  | _ => exact hvalue.here

/-! ### Statements -/

theorem inStep_negation :
    InStep m (b + 1) (Rule.negation read) (Rule.negation read') (Node.mapLines m.line)
      fun _ => 1 := by
  refine .line_bind fun line => .eat_behind rfl ?_ (inStep_expression hread)
  exact (InStepAt.nested (hread .negation trivial)).bind fun _ => inStep_pure rfl rfl

theorem inStep_condition :
    InStep m (b + 1) (Rule.condition read) (Rule.condition read') (Node.mapLines m.line)
      fun _ => 1 :=
  (inStep_negation hread).bind_behind (fun _ => Nat.one_pos) fun left =>
    hread (.conditionTail left) trivial

omit hread in
theorem connective?_mapLines (f : Nat → Nat) (token : Token) :
    connective? (token.mapLines f) = connective? token := by
  cases token <;> rfl

theorem inStep_conditionTail (left : Node) :
    InStep m (b + 1) (Rule.conditionTail read left)
      (Rule.conditionTail read' (left.mapLines m.line)) (Node.mapLines m.line) := by
  refine .current_bind fun here _ _ => ?_
  have hsame : connective? (here.mapLines m.line).token = connective? here.token :=
    connective?_mapLines _ here.token
  rw [hsame]
  cases hconnective : connective? here.token with
  | none => exact inStep_pure rfl rfl
  | some connective =>
    -- the connective is a token that can be taken
    have hne : here.token ≠ .done := by
      intro hdone
      rw [hdone] at hconnective
      cases hconnective
    refine .advance_behind (ne_done_of_eq hne) (inStep_skipNewlines.bind fun _ => ?_)
    refine (hread .negation trivial).bind fun right => ?_
    exact hread (.conditionTail ⟨.logical connective left right, here.line⟩) trivial

omit hread in
theorem inStep_oneTarget :
    InStep m b Rule.oneTarget Rule.oneTarget (Node.mapLines m.line) fun _ => 1 := by
  refine .line_bind fun line => (inStep_eat rfl).bind fun splat => inStep_next.bind fun token => ?_
  cases token with
  | word name =>
    refine (inStep_declare name).bind fun _ => inStep_pure ?_ rfl
    cases splat <;> rfl
  | var sigil name =>
    refine inStep_pure ?_ rfl
    cases splat <;> rfl
  | _ => exact .fail_bind Fault.noConfusion

theorem inStep_targets :
    InStep m (b + 1) (Rule.targets read) (Rule.targets read') (mapLinesAll m.line)
      fun _ => 1 := by
  refine inStep_oneTarget.bind_behind (fun _ => Nat.one_pos) fun first => ?_
  refine .eat_ite rfl ?_ (inStep_pure rfl rfl)
  exact (hread .targets trivial).bind fun _ => inStep_pure rfl rfl

theorem inStep_multiAssign :
    InStep m (b + 1) (Rule.multiAssign read) (Rule.multiAssign read') (Node.mapLines m.line)
      fun _ => 1 := by
  refine .line_bind fun line => ?_
  refine (inStep_targets hread).bind_behind (fun _ => Nat.one_pos) fun places => ?_
  refine (inStep_expect rfl _).bind fun _ => inStep_skipNewlines.bind fun _ => ?_
  refine (hread .expression trivial).bind fun first => ?_
  refine (hread .moreArguments trivial).bind fun others => inStep_pure ?_ rfl
  obtain ⟨form, firstLine⟩ := first
  cases others <;> rfl

omit hread in
theorem modified?_mapLines (f : Nat → Nat) (word : String) (node operand : Node) :
    modified? word (node.mapLines f) (operand.mapLines f) =
      (modified? word node operand).map (Form.mapLines f) := by
  unfold modified?
  split <;> rfl

/-- A modifier makes a form of the statement before it. -/
theorem inStep_modified (text : String) (node operand : Node) (line : Nat) :
    InStep m b
      (match modified? text node operand with
        | some form => read (.modifiers ⟨form, line⟩)
        | none => pure node)
      (match modified? text (node.mapLines m.line) (operand.mapLines m.line) with
        | some form => read' (.modifiers ⟨form, m.line line⟩)
        | none => pure (node.mapLines m.line)) (Node.mapLines m.line) := by
  rw [modified?_mapLines]
  cases modified? text node operand with
  | some form => exact hread (.modifiers ⟨form, line⟩) trivial
  | none => exact inStep_pure rfl rfl

theorem inStep_modifiers (node : Node) :
    InStep m (b + 1) (Rule.modifiers read node) (Rule.modifiers read' (node.mapLines m.line))
      (Node.mapLines m.line) := by
  refine .current_bind fun here _ _ => ?_
  obtain ⟨token, line, spaced⟩ := here
  cases token with
  | word text =>
    refine .ite_bool rfl ?_ (inStep_pure rfl rfl)
    refine .advance_behind (ne_done_of_eq Token.noConfusion) ?_
    refine (hread .condition trivial).bind fun operand => ?_
    exact inStep_modified hread text node operand line
  | _ => exact inStep_pure rfl rfl

omit hread in
/-- A token without code is the same token on another line. -/
theorem exists_eq_cons_of_mapLines_eq {f : Nat → Nat} {tokens others : List Located} {token : Token}
    {line : Nat} {spaced : Bool} (htoken : token.isPlain = true)
    (h : tokens.map (·.mapLines f) = ⟨token, line, spaced⟩ :: others) :
    ∃ before rest, tokens = ⟨token, before, spaced⟩ :: rest ∧
      rest.map (·.mapLines f) = others := by
  obtain ⟨⟨token', before, spaced'⟩, rest, rfl, hhere, hrest⟩ := List.map_eq_cons_iff.1 h
  cases hhere
  cases token' with
  | str | command => cases htoken
  | _ => exact ⟨before, rest, rfl, hrest⟩

omit hread in
/-- Targets are told by the kinds of the tokens. -/
theorem announcesTargets_mapLines (f : Nat → Nat) (several : Bool) (tokens : List Located) :
    announcesTargets several (tokens.map (·.mapLines f)) = announcesTargets several tokens := by
  have htarget : ∀ token : Token, (token.mapLines f).isTarget = token.isTarget := by
    intro token
    cases token <;> rfl
  fun_induction announcesTargets several tokens with
  | case1 several line spaced text line' spaced' line'' spaced'' others ih => exact ih
  | case2 several line spaced text line' spaced' line'' spaced'' others => rfl
  | case3 several target line spaced others ih =>
    rw [← ih, ← htarget]
    exact announcesTargets.eq_3 several (target.mapLines f) _ _ _
  | case4 several target line spaced others =>
    rw [← htarget]
    exact announcesTargets.eq_4 several (target.mapLines f) _ _ _
  | case5 tokens several hsplat hlast htargets hassign =>
    -- what the tokens announce on other lines they announce on these
    refine announcesTargets.eq_5 _ _ ?_ ?_ ?_ ?_
    · intro line spaced text line' spaced' line'' spaced'' others heq
      obtain ⟨_, _, rfl, hsecond⟩ := exists_eq_cons_of_mapLines_eq rfl heq
      obtain ⟨_, _, rfl, hthird⟩ := exists_eq_cons_of_mapLines_eq rfl hsecond
      obtain ⟨_, _, rfl, -⟩ := exists_eq_cons_of_mapLines_eq rfl hthird
      exact hsplat _ _ _ _ _ _ _ _ rfl
    · intro line spaced text line' spaced' line'' spaced'' others heq
      obtain ⟨_, _, rfl, hsecond⟩ := exists_eq_cons_of_mapLines_eq rfl heq
      obtain ⟨_, _, rfl, hthird⟩ := exists_eq_cons_of_mapLines_eq rfl hsecond
      obtain ⟨_, _, rfl, -⟩ := exists_eq_cons_of_mapLines_eq rfl hthird
      exact hlast _ _ _ _ _ _ _ _ rfl
    · intro target line spaced others heq
      obtain ⟨first, rest, rfl, -, hrest⟩ := List.map_eq_cons_iff.1 heq
      obtain ⟨_, _, rfl, -⟩ := exists_eq_cons_of_mapLines_eq rfl hrest
      exact htargets _ _ _ _ rfl
    · intro target line spaced others heq
      obtain ⟨first, rest, rfl, -, hrest⟩ := List.map_eq_cons_iff.1 heq
      obtain ⟨_, _, rfl, -⟩ := exists_eq_cons_of_mapLines_eq rfl hrest
      exact hassign _ _ _ _ rfl

theorem inStep_statement :
    InStep m (b + 1) (Rule.statement read) (Rule.statement read') (Node.mapLines m.line)
      fun _ => 1 := by
  refine .get_bind fun s _ => .ite_bool (announcesTargets_mapLines _ false s.cursor.tokens) ?_ ?_
  · exact (inStep_multiAssign hread).bind_behind (fun _ => Nat.one_pos) fun node =>
      hread (.modifiers node) trivial
  · exact (inStep_condition hread).bind_behind (fun _ => Nat.one_pos) fun node =>
      hread (.modifiers node) trivial

omit hread in
theorem endsStatements_mapLines (f : Nat → Nat) (stops : List String) (token : Token) :
    Rule.endsStatements stops (token.mapLines f) = Rule.endsStatements stops token := by
  cases token <;> rfl

/-- A statement takes a token, so the others are within the bound. -/
theorem inStep_statements (stops : List String) :
    InStep m (b + 1) (Rule.statements read stops) (Rule.statements read' stops)
      (mapLinesAll m.line) := by
  refine inStep_skipTerminators.bind fun _ => .current_bind fun here _ _ => ?_
  refine .ite_bool (endsStatements_mapLines _ stops here.token) (inStep_pure rfl rfl) ?_
  refine (inStep_statement hread).bind_behind (fun _ => Nat.one_pos) fun first => ?_
  refine .current_bind fun behind _ _ => .ite_bool ?_ .unexpected_bind ?_
  · exact congrArg₂ (!· && !·) (isTerminator_mapLines _ behind.token)
      (endsStatements_mapLines _ stops behind.token)
  · exact (hread (.statements stops) trivial).bind fun others => inStep_pure rfl rfl

/-! ### The knot -/

/-- The rules are in step where there is one more to read. -/
theorem readersInStep_of : ReadersInStep m (b + 1) (Rule.of read) (Rule.of read') := by
  intro n hn
  cases n with
  | statements stops => exact inStep_statements hread stops
  | modifiers node => exact inStep_modifiers hread node
  | condition => exact inStep_condition hread
  | conditionTail left => exact inStep_conditionTail hread left
  | negation => exact inStep_negation hread
  | expression => exact inStep_expression hread
  | ternary => exact inStep_ternary hread
  | operation levels => exact inStep_operation hread levels
  | operationTail level tighter left => exact inStep_operationTail hread level tighter left
  | signed => exact inStep_signed hread
  | unary => exact inStep_unary hread
  | chain node => exact inStep_chain hread node
  | argument => exact inStep_argument hread
  | argumentValue => exact inStep_argumentValue hread
  | moreArguments => exact inStep_moreArguments hread
  | moreItems close => exact inStep_moreItems hread hn
  | moreEntries => exact inStep_moreEntries hread
  | params stop => exact inStep_params hread stop
  | targets => exact inStep_targets hread
  | moreClasses => exact inStep_moreClasses hread
  | rescues => exact inStep_rescues hread
  | whens => exact inStep_whens hread
  | otherwise => exact inStep_otherwise hread
  | constPath path line => exact inStep_constPath hread path line

end Rules

/-- Readers with enough requests for what there is to read are in step, also if the second one has
more. -/
theorem readersInStep_readAt (m : Move) {bound bound' : Nat} (h : bound ≤ bound') :
    ReadersInStep m bound (readAt bound) (readAt bound') := by
  induction bound generalizing bound' with
  | zero =>
    intro n _ s _ hload _
    have hpos := s.cursor.current.token.weight_pos
    have hle : s.cursor.current.token.weight ≤ tokensWeight s.cursor.tokens :=
      weight_le_tokensWeight List.mem_cons_self
    omega
  | succ bound ih =>
    cases bound' with
    | zero => exact absurd h (Nat.not_succ_le_zero _)
    | succ bound' => exact readersInStep_of (ih (Nat.le_of_succ_le_succ h))

end LaneScript
