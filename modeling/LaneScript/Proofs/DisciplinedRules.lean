import LaneScript.Proofs.DisciplinedConstructs

/-!
# The rules of the grammar keep the discipline

With the constructs, all rules of the grammar come together here: each of them follows if the reader
of its parts does, and the knot is tied in `follows_readAt`, by recursion on the bound.

So a script that is read from its text has names for all its statements, and no level is left that
was not entered, `balances_parseText`.
-/

namespace LaneScript

open LaneScript.Parser
open List

section Rules

variable {read : Reader} (hread : FollowingReader read) {d : ReadingLevel} {c : Content}
include hread

/-! ### Primary expressions -/

/-- Each construct, by its keyword. -/
theorem follows_construct? {line : Nat} {word : String} {construct : Parser Node}
    (h : Rule.construct? read line word = some construct) :
    Follows d ∅ construct Content.ofNode := by
  unfold Rule.construct? at h
  split at h
  · cases h
    exact follows_conditional hread line
  · cases h
    exact follows_unlessThen hread line
  · cases h
    exact follows_loop hread false line
  · cases h
    exact follows_loop hread true line
  · cases h
    exact follows_forEach hread line
  · cases h
    exact follows_caseOf hread line
  · cases h
    exact (follows_clauses hread).bind fun found _ => follows_node rfl (by rfl) line
  · cases h
    exact follows_method hread line
  · cases h
    exact follows_classDef hread line
  · cases h
    exact follows_moduleDef hread line
  · cases h

theorem follows_definedForm :
    Follows d ∅ (Rule.definedForm read) Form.content fun form => form.isPlain = true := by
  refine .after (quiet_eat _) fun paren => (hread d .expression).bind fun operand _ => ?_
  split
  · exact .after (quiet_expect _ _) fun _ => follows_pure (.refl _) rfl
  · exact follows_pure (.refl _) rfl

omit hread in
/-- A name that is read as a variable is one that is seen. -/
theorem follows_localVar (name : String) (line : Nat) {other : Parser Node}
    (hother : Follows d ∅ other Content.ofNode) :
    Follows d ∅ (do
      if (← isLocal name) && !(← isAtCallParen) then return ⟨.localVar name, line⟩ else other)
      Content.ofNode := by
  refine (follows_isLocal name).bind fun bound _ => .after quiet_isAtCallParen fun paren => ?_
  cases bound with
  | false => exact hother
  | true =>
    cases paren with
    | false => exact follows_node rfl (by rfl) line
    | true =>
      -- with a parenthesis the name is a call, and that it is seen is not needed
      refine hother.standsFor (.nothing fun found => ?_)
      rintro (hfound | ⟨node, hnode, -⟩)
      · cases hfound
      · cases hnode

/-- A word that is not empty names the call that it may be. -/
theorem follows_word {text : String} (htext : d.written → text ≠ "") (line : Nat) :
    Follows d ∅ (Rule.word read text line) Content.ofNode := by
  -- the cases in the order in which the rule tries them
  unfold Rule.word
  split
  · exact .after quiet_advance fun _ => follows_node rfl (by rfl) line
  split
  next construct hconstruct =>
    exact .after quiet_advance fun _ => follows_construct? hread hconstruct
  split
  · refine .after quiet_advance fun _ => .after quiet_startsExpression fun starts => ?_
    split
    · exact (hread d .expression).bind fun value _ => follows_node rfl (by rfl) line
    · exact follows_node rfl (by rfl) line
  split
  · refine .after quiet_advance fun _ => ?_
    exact (follows_arguments? hread).bind fun args _ => follows_node rfl (by rfl) line
  split
  · refine .after quiet_advance fun _ => ?_
    exact (follows_arguments? hread).bind fun args _ => follows_node rfl (by rfl) line
  split
  · refine .after quiet_advance fun _ => ?_
    exact (follows_definedForm hread).bind fun form hform => follows_node hform rfl line
  split
  · refine .after quiet_advance fun _ => ?_
    exact (hread d .expression).bind fun value _ => follows_node rfl (by rfl) line
  split
  · exact fails_unexpected.follows
  · exact .after quiet_advance fun _ => follows_localVar text line
      (follows_call hread (fun hwritten _ => htext hwritten) false line)

theorem follows_parenthesized (line : Nat) :
    Follows d ∅ (Rule.parenthesized read line) Content.ofNode := by
  refine (Follows.allowingDo (hread d (.statements []))).bind fun body _ => ?_
  refine .after quiet_skipTerminators fun _ => .after (quiet_expect _ _) fun _ => ?_
  split
  · exact follows_node rfl (by rfl) line
  · exact follows_pure (.refl _) trivial
  · exact follows_node rfl (by rfl) line

theorem follows_constant {name : String} (hname : d.written → name ≠ "") (line : Nat) :
    Follows d ∅ (Rule.constant read name line) Content.ofNode := by
  refine .after quiet_isAtCallParen fun paren => ?_
  split
  · exact follows_call hread (fun hwritten _ => hname hwritten) false line
  · exact follows_node rfl (by rfl) line

omit hread in
theorem follows_outermost (line : Nat) : Follows d ∅ (Rule.outermost line) Content.ofNode := by
  refine .after quiet_current fun here => ?_
  split
  · exact .after quiet_advance fun _ => follows_node rfl (by rfl) line
  · exact fails_unexpected.follows

omit hread in
/-- The words of a list are literals. -/
theorem standsFor_wordArray (symbols : Bool) (items : List String) (line : Nat) :
    (Content.ofNode ⟨Rule.wordArray symbols items line, line⟩).StandsFor d ∅ := by
  refine ⟨fun _ hname => absurd hname Content.binds_empty, fun visible _ => ⟨nofun, ?_, nofun⟩,
    fun _ => Content.fits_ofNode.2 (fits_wordArray symbols items line)⟩
  refine forall_mem_singleton.2 (.intro nofun (fun node hnode => ?_) nofun)
  obtain ⟨item, _, rfl⟩ := mem_map.1 hnode
  cases symbols with
  | true => exact .intro nofun nofun nofun
  | false => exact .intro nofun nofun nofun

/-- What the token begins, by the token. -/
theorem follows_formBehind? {line : Nat} {token : Token} (htoken : d.written → token.IsWellFormed)
    {form : Parser Node} (h : Rule.formBehind? read line token = some form) :
    Follows d ∅ form Content.ofNode := by
  unfold Rule.formBehind? at h
  split at h
  case h_4 =>
    cases h
    exact (follows_strings hread htoken).bind fun form hform =>
      follows_pure (.of_fits ⟨form, line⟩ (hform line)) trivial
  case h_5 =>
    cases h
    exact (follows_segments hread _).bind fun segments _ => follows_node rfl (by rfl) line
  case h_7 =>
    cases h
    exact follows_pure (standsFor_wordArray _ _ line) trivial
  case h_10 =>
    cases h
    exact follows_constant hread htoken line
  case h_11 =>
    cases h
    exact follows_outermost line
  case h_12 =>
    cases h
    exact follows_parenthesized hread line
  case h_13 =>
    cases h
    exact (follows_items hread _ _).bind fun items hitems => follows_pure
      (.of_fits ⟨.array items, line⟩ fun hfits => fits_array line hfits.nodes hitems) trivial
  case h_14 =>
    cases h
    exact (follows_entries hread).bind fun entries hentries => follows_pure
      (.of_fits ⟨.hash entries true, line⟩ fun hfits => fits_hash line hfits.nodes hentries) trivial
  case h_15 =>
    cases h
    exact follows_lambda hread line
  case h_16 =>
    cases h
    exact (hread d (.operation _)).bind fun high _ => follows_node rfl (by rfl) line
  case h_17 => cases h
  -- the other literals hold nothing
  all_goals
    cases h
    exact follows_node rfl (by rfl) line

/-- A word, or what another token begins. -/
theorem follows_primary : Follows d ∅ (Rule.primary read) Content.ofNode := by
  refine follows_current.bind fun here hhere => ?_
  split
  next text htoken =>
    rw [htoken] at hhere
    exact follows_word hread hhere here.line
  · split
    next form hform => exact .after quiet_advance fun _ => follows_formBehind? hread hhere hform
    · exact fails_unexpected.follows

/-! ### Operations -/

theorem follows_operand : Follows d ∅ (Rule.operand read) Content.ofNode :=
  (follows_primary hread).bind fun node _ => hread d (.chain node)

theorem follows_unary : Follows d ∅ (Rule.unary read) Content.ofNode := by
  have hnested : Follows d ∅ (nested (read .unary)) Content.ofNode fun node => node.FitsDeeper d :=
    follows_nested (hread d.deeper .unary)
  refine .after quiet_line fun line => .after (quiet_eat _) fun bang => ?_
  split
  · exact hnested.bind fun operand _ => follows_node rfl (by rfl) line
  refine .after (quiet_eat _) fun tilde => ?_
  split
  · exact hnested.bind fun operand _ => follows_node rfl (by rfl) line
  refine .after (quiet_eat _) fun plus => ?_
  split
  · exact hnested.bind fun operand _ => follows_node rfl (by rfl) line
  · exact follows_operand hread

/-- The exponent is nested in the power. -/
theorem follows_power (base : Node) :
    Follows d (.ofNode base) (Rule.power read base) Content.ofNode := by
  refine .after quiet_line fun line => .after (quiet_eat _) fun taken => ?_
  split
  · refine .after quiet_skipNewlines fun _ => ?_
    exact .part (follows_nested (hread d.deeper .signed)) fun power _ =>
      follows_node rfl (by rfl) line
  · exact follows_pure (.refl _) trivial

omit hread in
/-- A number with its minus holds nothing. -/
theorem standsFor_negated? {token : Token} {form : Form} (h : token.negated? = some form)
    (line : Nat) : (Content.ofNode ⟨form, line⟩).StandsFor d ∅ := by
  unfold Token.negated? at h
  split at h
  · cases h
    exact .node ⟨_, line⟩ rfl
  · cases h
    exact .node ⟨_, line⟩ rfl
  · cases h

/-- A number with its sign holds nothing. -/
theorem follows_signed : Follows d ∅ (Rule.signed read) Content.ofNode := by
  refine .after quiet_current fun here => ?_
  split
  · exact (follows_unary hread).bind fun base _ => follows_power hread base
  · refine .after (quiet_peek 1) fun number => .after (quiet_peek 2) fun behind => ?_
    refine .after quiet_advance fun _ => ?_
    split
    next form hform =>
      -- a minus before a number is a part of the number
      have hliteral : (Content.ofNode ⟨form, here.line⟩).StandsFor d ∅ := by
        split at hform
        · cases hform
        · exact standsFor_negated? hform _
      refine .after quiet_advance fun _ => ?_
      exact ((hread d (.chain ⟨form, here.line⟩)).standsFor hliteral).bind fun base _ =>
        follows_power hread base
    · exact (follows_nested (hread d.deeper .signed)).bind fun operand _ =>
        follows_node rfl (by rfl) _

theorem follows_operation (levels : List (List BinaryOp)) :
    Follows d ∅ (Rule.operation read levels) Content.ofNode := by
  induction levels with
  | nil => exact follows_signed hread
  | cons level tighter ih =>
    exact ih.bind fun first _ => hread d (.operationTail level tighter first)

omit hread in
theorem quiet_joining? (level : List BinaryOp) : Quiet d (Rule.joining? level) := by
  refine quiet_current.bind fun here => ?_
  split
  · refine quiet_get.bind fun s => ?_
    split
    · exact quiet_pure _
    · exact quiet_pure _
  · exact quiet_pure _

omit hread in
theorem standsFor_join (op : BinaryOp) (left right : Node) (line : Nat) :
    (Content.ofNode ⟨op.join left right, line⟩).StandsFor d (.ofNodes [left, right]) := by
  cases op <;> exact .node ⟨_, line⟩ rfl

/-- The operands to the left are held by the operation. -/
theorem follows_operationTail (level : List BinaryOp) (tighter : List (List BinaryOp))
    (left : Node) :
    Follows d (.ofNode left) (Rule.operationTail read level tighter left) Content.ofNode := by
  refine .after quiet_line fun line => .after (quiet_joining? level) fun joining => ?_
  split
  next op =>
    refine .after quiet_advance fun _ => .after quiet_skipNewlines fun _ => ?_
    refine .part (hread d (.operation tighter)) fun right _ => ?_
    exact (hread d (.operationTail level tighter ⟨op.join left right, line⟩)).standsFor
      (standsFor_join op left right line)
  · exact follows_pure (.refl _) trivial

/-- A range holds the ends that it has. -/
theorem follows_range : Follows d ∅ (Rule.range read) Content.ofNode := by
  refine (follows_operation hread _).bind fun low _ => .after quiet_current fun here => ?_
  split
  · refine .after quiet_advance fun _ => .after quiet_startsExpression fun starts => ?_
    split
    · exact .part (hread d (.operation _)) fun high _ => follows_node rfl (by rfl) _
    · exact follows_node rfl (by rfl) _
  · exact follows_pure (.refl _) trivial

theorem follows_ternary : Follows d ∅ (Rule.ternary read) Content.ofNode := by
  have hnested : Follows d ∅ (nested (read .ternary)) Content.ofNode
      fun node => node.FitsDeeper d := follows_nested (hread d.deeper .ternary)
  refine (follows_range hread).bind fun condition _ => .after quiet_line fun line => ?_
  refine .after (quiet_eat _) fun taken => ?_
  split
  · refine .after quiet_skipNewlines fun _ => .part hnested fun whenTrue _ => ?_
    refine .after quiet_skipNewlines fun _ => .after (quiet_eat _) fun colon => ?_
    split
    · exact (fails_expected _).bind
    · refine .after quiet_skipNewlines fun _ => ?_
      exact .part hnested fun whenFalse _ => follows_node rfl (by rfl) line
  · exact follows_pure (.refl _) trivial

omit hread in
/-- A node that holds no name and no other node binds nothing. -/
theorem not_binds_of_content {node : Node} (hnames : node.form.content.names = [])
    (hnodes : node.form.content.nodes = []) (name : String) : ¬ node.Binds name := by
  rw [Node.binds_iff, Content.Binds, hnames, hnodes]
  rintro (hname | ⟨part, hpart, -⟩)
  · cases hname
  · cases hpart

omit hread in
/-- What a node does not bind its content does not. -/
theorem not_binds_ofNode {node : Node} {name : String} (h : ¬ node.Binds name) :
    ¬ (Content.ofNode node).Binds name := by
  rintro (hname | ⟨part, hpart, hname⟩)
  · cases hname
  · rw [mem_singleton.1 hpart] at hname
    exact h hname

omit hread in
/-- In a place that binds, a node holds no more than elsewhere. -/
theorem standsFor_asTarget (node : Node) : node.asTarget.StandsFor d (.ofNode node) := by
  obtain ⟨form, line⟩ := node
  unfold Node.asTarget
  split
  next name hform =>
    cases hform
    refine (Content.StandsFor.names [name]).trans (.nothing fun bound => not_binds_ofNode ?_)
    exact not_binds_of_content rfl rfl bound
  next name nameLine hform =>
    cases hform
    refine (Content.StandsFor.names [name]).trans (.nothing fun bound => not_binds_ofNode ?_)
    rw [Node.binds_iff]
    exact not_binds_ofNode (not_binds_of_content rfl rfl bound)
  · exact .refl _

omit hread in
/-- The target of an assignment is declared if it is a bare name. -/
theorem follows_target (node : Node) :
    Follows d (.ofNode node) (Rule.target node) Node.asTarget := by
  obtain ⟨form, line⟩ := node
  unfold Rule.target
  split
  next name safe hform =>
    cases hform
    exact (follows_declare_target name line).standsFor
      (.nothing fun bound => not_binds_ofNode (not_binds_of_content rfl rfl bound))
  case h_7 => exact (fails_fail fun _ => Fault.noConfusion).follows
  all_goals exact follows_pure (standsFor_asTarget _) trivial

omit hread in
/-- Every operator that assigns makes a form of a target and a value. -/
theorem follows_assigning? : Follows d c Rule.assigning? (fun _ => c) fun assigning =>
    ∀ assign ∈ assigning, ∀ target value : Node, (assign target value).isPlain = true ∧
      (assign target value).content = target.asTarget ++ .ofNode value := by
  refine .after quiet_current fun here => ?_
  split
  · refine follows_pure (.refl _) fun assign hassign target value => ?_
    unfold Operator.assignment? at hassign
    split at hassign
    · cases hassign
      exact ⟨rfl, rfl⟩
    · cases hassign
      exact ⟨rfl, rfl⟩
    · cases hassign
  · exact follows_pure (.refl _) (by rintro _ ⟨⟩)

/-- An expression is read one level deeper than what is around it. -/
theorem follows_expression :
    Follows d ∅ (Rule.expression read) Content.ofNode fun node => node.FitsDeeper d := by
  refine @follows_nested _ _ (fun _ => True) ((follows_ternary hread).bind fun left _ => ?_)
  -- what comes before an operator that assigns is its target
  refine follows_assigning?.bind fun assigning hassigning => ?_
  split
  next assign =>
    refine (follows_target left).bind fun place _ => .after quiet_advance fun _ => ?_
    refine .after quiet_skipNewlines fun _ => .part (hread _ .expression) fun value _ => ?_
    obtain ⟨hform, hcontent⟩ := hassigning assign rfl place value
    exact follows_node hform hcontent.symm _
  · exact follows_pure (.refl _) trivial

omit hread in
/-- The keyword of a negation is no atom, construct or jump. -/
theorem word_not (read : Reader) (line : Nat) :
    Rule.word read "not" line = (do
      advance
      return ⟨.not (← read .expression), line⟩) := rfl

/-- Where a value is negated by a word, the operand is an expression. -/
theorem follows_argumentValue :
    Follows d ∅ (Rule.argumentValue read) Content.ofNode fun node => node.FitsDeeper d := by
  have hnot : ∀ line, Follows d ∅ (Rule.word read "not" line) Content.ofNode
      fun node => node.FitsDeeper d := by
    intro line
    rw [word_not]
    refine .after quiet_advance fun _ => (hread d .expression).bind fun operand hoperand => ?_
    exact follows_pure (.node ⟨.not operand, line⟩ rfl)
      (fitsDeeper_of_parts line rfl hoperand.lt (forall_mem_singleton.2 hoperand))
  intro s hs
  show s.Ends _ _ ((if s.cursor.current.token == .word "not" then Rule.primary read
    else Rule.expression read).outcome s)
  split
  next htoken =>
    -- the word is the current token, so the rule for words is the one that is used
    have hprimary : (Rule.primary read).outcome s =
        (Rule.word read "not" s.cursor.current.line).outcome s := by
      rw [Rule.primary]
      refine (outcome_bind_of_ok
        (show current.outcome s = .ok s.cursor.current s from rfl) _).trans ?_
      rw [eq_of_beq htoken]
    rw [hprimary]
    exact hnot _ s hs
  · exact follows_expression hread s hs

/-- A plain value is an item, and so is a pair; a splat has no elements. -/
theorem follows_argument :
    Follows d ∅ (Rule.argument read) Content.ofNode fun node => node.IsItem d := by
  -- what is behind a star or an ampersand is no element
  have hstar : ∀ form : Node → Form, (∀ value line, (form value).isPlain = true ∧
      (form value).content = .ofNode value ∧ Node.values ⟨form value, line⟩ = []) → ∀ line,
      Follows d ∅ (do return ⟨form (← read .ternary), line⟩) Content.ofNode
        fun node => node.IsItem d := by
    intro form hform line
    refine (hread d .ternary).bind fun value _ => ?_
    obtain ⟨hplain, hcontent, hvalues⟩ := hform value line
    have hnode := @Content.StandsFor.node d ⟨form value, line⟩ hplain
    rw [hcontent] at hnode
    refine follows_pure hnode ?_
    rw [Node.IsItem, hvalues]
    exact forall_mem_nil _
  refine .after quiet_current fun here => .after (quiet_eat _) fun splat => ?_
  split
  · exact hstar _ (fun _ _ => ⟨rfl, rfl, rfl⟩) _
  refine .after (quiet_eat _) fun doubleSplat => ?_
  split
  · exact hstar _ (fun _ _ => ⟨rfl, rfl, rfl⟩) _
  refine .after (quiet_eat _) fun blockPass => ?_
  split
  · refine .after quiet_startsExpression fun starts => ?_
    split
    · exact hstar (.blockPass ∘ some) (fun _ _ => ⟨rfl, rfl, rfl⟩) _
    · exact follows_pure (.node ⟨.blockPass none, here.line⟩ rfl) (forall_mem_nil _)
  split
  next key htoken =>
    refine .after quiet_advance fun _ => .after quiet_skipNewlines fun _ => ?_
    exact (hread d .argumentValue).bind fun value hvalue =>
      follows_pure (standsFor_label key value here.line)
        (isItem_pair here.line ⟨hvalue.lt, fits_leaf _ rfl rfl⟩ hvalue)
  · refine (follows_argumentValue hread).bind fun value hvalue => .after (quiet_eat _) fun _ => ?_
    split
    · refine .after quiet_skipNewlines fun _ => ?_
      exact .part (hread d .argumentValue) fun mapped hmapped =>
        follows_pure (.node (.pair value mapped here.line) rfl) (isItem_pair _ hvalue hmapped)
    · exact follows_pure (.refl _) hvalue.isItem

/-! ### Statements -/

theorem follows_negation :
    Follows d ∅ (Rule.negation read) Content.ofNode fun node => node.FitsDeeper d := by
  refine .after quiet_line fun line => .after (quiet_eat _) fun taken => ?_
  split
  · refine (follows_nested (hread d.deeper .negation)).bind fun operand hoperand => ?_
    exact follows_pure (.node ⟨.not operand, line⟩ rfl)
      (fitsDeeper_of_parts line rfl hoperand.lt (forall_mem_singleton.2 hoperand))
  · exact follows_expression hread

theorem follows_condition :
    Follows d ∅ (Rule.condition read) Content.ofNode fun node => node.FitsDeeper d :=
  (follows_negation hread).bind fun left hleft =>
    (hread d (.conditionTail left)).mono fun _ hnode => hnode hleft

theorem follows_conditionTail (left : Node) :
    Follows d (.ofNode left) (Rule.conditionTail read left) Content.ofNode
      fun node => left.FitsDeeper d → node.FitsDeeper d := by
  refine .after quiet_current fun here => ?_
  split
  next connective _ =>
    refine .after quiet_advance fun _ => .after quiet_skipNewlines fun _ => ?_
    refine .part (hread d .negation) fun right hright => ?_
    refine ((hread d (.conditionTail _)).standsFor
      (.node ⟨.logical connective left right, here.line⟩ rfl)).mono fun node hnode hleft => ?_
    exact hnode (fitsDeeper_of_parts _ rfl hleft.lt
      (forall_mem_cons.2 ⟨hleft, forall_mem_singleton.2 hright⟩))
  · exact follows_pure (.refl _) id

omit hread in
theorem follows_oneTarget : Follows d ∅ Rule.oneTarget Node.asTarget := by
  refine .after quiet_line fun line => .after (quiet_eat _) fun splat => ?_
  refine .after quiet_next fun token => ?_
  cases token with
  | word name =>
    refine Follows.standsFor (e := .ofNames [name]) ?_ (.names [name])
    refine (follows_declare (.inl (mem_singleton_self name))).bind fun _ _ =>
      follows_pure ?_ trivial
    cases splat with
    | true => exact .refl _
    | false => exact .refl _
  -- only a plain name is declared
  | var sigil name =>
    have hvar : (Content.ofNode ⟨.var sigil name, line⟩).StandsFor d ∅ := .node _ rfl
    refine follows_pure ?_ trivial
    cases splat with
    | true => exact (Content.StandsFor.node ⟨.splat ⟨.var sigil name, line⟩, line⟩ rfl).trans hvar
    | false => exact hvar
  | _ => exact (fails_fail fun _ => Fault.noConfusion).follows

/-- Every target is declared where it is read. -/
theorem follows_targets : Follows d ∅ (Rule.targets read) (.all Node.asTarget) := by
  refine follows_oneTarget.bind fun first _ => .after (quiet_eat _) fun taken => ?_
  split
  · exact .part (hread d .targets) fun others _ => follows_pure (.refl _) trivial
  · rw [← Content.append_empty first.asTarget]
    exact follows_pure (.refl _) trivial

/-- Several values are an array that is read at the depth of the statement. -/
theorem follows_multiAssign :
    Follows d ∅ (Rule.multiAssign read) Content.ofNode fun node => node.IsStatementAt d := by
  refine .after quiet_line fun line => (follows_targets hread).bind fun places _ => ?_
  refine .after (quiet_expect _ _) fun _ => .after quiet_skipNewlines fun _ => ?_
  refine .part (hread d .expression) fun first hfirst => ?_
  refine .part (hread d .moreArguments) fun others hothers => ?_
  refine follows_pure ?_ ⟨hfirst.lt, .inr (.assignment _ _ _)⟩
  rw [Content.append_assoc]
  refine (Content.StandsFor.node ⟨.multiAssign places _, line⟩ rfl).trans (.append (.refl _) ?_)
  -- one value stands for itself, and several are an array
  cases others with
  | nil => exact .refl _
  | cons second others =>
    exact .of_fits ⟨.array (first :: second :: others), first.line⟩ fun hfits =>
      fits_array _ hfits.nodes (forall_mem_cons.2 ⟨hfirst.isItem, hothers⟩)

omit hread in
/-- A modifier makes one form of the statement and its operand. -/
theorem standsFor_modified? {word : String} {node operand : Node} {form : Form}
    (h : modified? word node operand = some form) :
    form.content.StandsFor d (.ofNode node ++ .ofNode operand) := by
  unfold modified? at h
  split at h
  case h_6 => cases h
  case h_5 =>
    cases h
    exact .refl _
  all_goals
    cases h
    refine @Content.StandsFor.ofNodes _ [node, operand] _ fun found => ?_
    simp [or_comm]

omit hread in
/-- Every word that modifies a statement makes a form of it. -/
theorem modified?_ne_none {word : String} (h : modifierWords.contains word = true)
    (node operand : Node) : modified? word node operand ≠ none := by
  intro hnone
  unfold modified? at hnone
  split at hnone
  case h_6 => simp_all [modifierWords]
  all_goals cases hnone

/-- A modifier nests nothing, so the statement stays where it may stand. -/
theorem follows_modifiers (node : Node) :
    Follows d (.ofNode node) (Rule.modifiers read node) Content.ofNode
      fun found => node.IsStatementAt d → found.IsStatementAt d := by
  refine .after quiet_current fun here => ?_
  split
  · split
    next hword =>
      refine .after quiet_advance fun _ => .part (hread d .condition) fun operand hoperand => ?_
      split
      next form hform =>
        have hnode := @Content.StandsFor.node d ⟨form, here.line⟩ (parts_modified? hform).1
        refine ((hread d (.modifiers ⟨form, here.line⟩)).standsFor
          (hnode.trans (standsFor_modified? hform))).mono fun found hfound hstatement => ?_
        exact hfound (hstatement.modified hoperand hform _)
      next hnone => exact absurd hnone (modified?_ne_none hword node operand)
    · exact follows_pure (.refl _) id
  · exact follows_pure (.refl _) id

theorem follows_statement :
    Follows d ∅ (Rule.statement read) Content.ofNode fun node => node.IsStatementAt d := by
  refine .after quiet_get fun s => ?_
  dsimp only
  have hmodifiers : ∀ node : Node, node.IsStatementAt d → Follows d (.ofNode node)
      (read (.modifiers node)) Content.ofNode fun found => found.IsStatementAt d :=
    fun node hnode => (hread d (.modifiers node)).mono fun _ hfound => hfound hnode
  split
  · exact (follows_multiAssign hread).bind hmodifiers
  · exact (follows_condition hread).bind fun node hnode => hmodifiers node hnode.isStatementAt

theorem follows_statements (stops : List String) :
    Follows d ∅ (Rule.statements read stops) Content.ofNodes
      fun body => ∀ node ∈ body, node.IsStatementAt d := by
  refine .after quiet_skipTerminators fun _ => .after quiet_current fun here => ?_
  split
  · exact follows_pure (.refl _) (forall_mem_nil _)
  refine (follows_statement hread).bind fun first hfirst => .after quiet_current fun behind => ?_
  dsimp only
  split
  · exact fails_unexpected.bind
  · exact .part (hread d (.statements stops)) fun others hothers =>
      follows_pure (.refl _) (forall_mem_cons.2 ⟨hfirst, hothers⟩)

/-! ### The knot -/

/-- The rules, one case for each nonterminal. -/
theorem follows_rule (n : Nonterminal) :
    Follows d n.given (Rule.of read n) n.content (n.Returns d) := by
  cases n with
  | statements stops => exact follows_statements hread stops
  | modifiers node => exact follows_modifiers hread node
  | condition => exact follows_condition hread
  | conditionTail left => exact follows_conditionTail hread left
  | negation => exact follows_negation hread
  | expression => exact follows_expression hread
  | ternary => exact follows_ternary hread
  | operation levels => exact follows_operation hread levels
  | operationTail level tighter left => exact follows_operationTail hread level tighter left
  | signed => exact follows_signed hread
  | unary => exact follows_unary hread
  | chain node => exact follows_chain hread node
  | argument => exact follows_argument hread
  | argumentValue => exact follows_argumentValue hread
  | moreArguments => exact follows_moreArguments hread
  | moreItems close => exact follows_moreItems hread close
  | moreEntries => exact follows_moreEntries hread
  | params stop => exact follows_params hread stop
  | targets => exact follows_targets hread
  | moreClasses => exact follows_moreClasses hread
  | rescues => exact follows_rescues hread
  | whens => exact follows_whens hread
  | otherwise => exact follows_otherwise hread
  | constPath path line => exact follows_constPath hread path line

end Rules

/-- By induction on the bound, from the rules. -/
theorem follows_readAt (bound : Nat) : FollowingReader (readAt bound) := by
  induction bound with
  | zero => exact fun d n => (fails_fail fun _ => Fault.noConfusion).follows
  | succ bound ih => exact fun d n => follows_rule ih n

/-- What is read for a script from its start is accounted for, whatever its tokens. -/
theorem accounts_of_parse {file : String} {tokens : List Located} {script : List Node}
    (h : parse file tokens = .ok script) : (∀ node ∈ script, node.IsStatementAt ⟨0, False⟩) ∧
      ∃ scopes, Accounts ⟨0, False⟩ (fun name => Scope.sees name [.empty true] = true) []
        (.ofNodes script) scopes := by
  obtain ⟨s, hrun⟩ := exists_run_of_run' h
  obtain ⟨-, hstatements, haccounts⟩ := Restores.of_run
    (@follows_program _ (follows_readAt _) ⟨0, False⟩) ⟨rfl, False.elim⟩ hrun
  exact ⟨hstatements, _, haccounts _ _ (.start _ _)⟩

/-- However the tokens of a text are read as a script, the state is restored, no level is left that
was not entered, and all statements fit. -/
theorem balances_program {tokens : List Located} (h : ∀ here ∈ tokens, here.token.IsWellFormed)
    (bound : Nat) (file : String) (scopes : List Scope) (depth : Nat) :
    (State.start file tokens scopes depth).Balances
      (fun body => ∀ node ∈ body, node.Fits ⟨depth, True⟩)
      ((Rule.program (readAt bound)).outcome (.start file tokens scopes depth)) := by
  have hends : (State.start file tokens scopes depth).Ends True _ _ :=
    @follows_program _ (follows_readAt bound) ⟨depth, True⟩ _
      ⟨rfl, fun _ => isWellFormed_start h file scopes depth⟩
  exact hends.balances fun body _ hbody => (hbody.2 _ _ (.start _ _)).fits.nodes

theorem balances_parse {tokens : List Located} (h : ∀ here ∈ tokens, here.token.IsWellFormed)
    (file : String) :
    match parse file tokens with
    | .ok script => ∀ node ∈ script, node.Fits ⟨0, True⟩
    | .error failure => failure.fault ≠ .unbalanced := by
  have hrun := balances_program h (tokensWeight tokens + 1) file [.empty true] 0
  rw [parse, Parser.run', Parser.run]
  cases hresult : (Rule.program (readAt (tokensWeight tokens + 1))).outcome
      (.start file tokens [.empty true] 0) with
  | error failure s =>
    rw [hresult] at hrun
    exact hrun.2
  | ok body s =>
    rw [hresult] at hrun
    exact hrun.2

/-- Where a script is read from its text, no level is left that was not entered, and all its
statements fit. -/
theorem balances_parseText (file source : String) :
    match parseText file source with
    | .ok script => ∀ node ∈ script, node.Fits ⟨0, True⟩
    | .error failure => failure.fault ≠ .unbalanced := by
  rw [parseText, lex]
  cases hlex : lexFrom file 1 source with
  | error failure => exact fault_ne_of_lexFrom hlex rfl
  | ok tokens => exact balances_parse (isWellFormed_of_lexFrom hlex) file

end LaneScript
