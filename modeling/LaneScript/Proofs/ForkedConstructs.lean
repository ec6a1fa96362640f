import LaneScript.Proofs.BarrenTokens
import LaneScript.Proofs.ConstructsInStep

/-!
# Constructs on inputs that part at a mark

What each rule of the grammar does on two inputs that part at a mark, if the readers of its parts do
not tell them apart, `AgreesOn`.  This file has the rules whose last token is part of what they
read: bracketed lists, bodies, blocks, conditionals, loops and definitions.  A run of such a rule
that ends before the mark or at it has seen no mark, so that the rules for their parts are asked for
little.  They need not agree where a run ends at the mark.
-/

namespace LaneScript

open LaneScript.Parser

/-- No `&` is on the levels. -/
def lacksBitAnd (levels : List (List BinaryOp)) : Bool :=
  levels.all fun level => !level.contains .bitAnd

/-- The reader does not tell the inputs apart, as far as the rules rely on it.  What comes before a
closing token need not agree at the mark; what stands behind a value stays there; and what starts
with an expression does not. -/
structure AgreesOn (fork : Fork) (read : Reader) : Prop where
  statements : ∀ stops, Concurs fork 1 false (read (.statements stops))
  moreItems : ∀ close, Concurs fork 1 false (read (.moreItems close))
  moreEntries : Concurs fork 1 false (read .moreEntries)
  params : ∀ stop, Concurs fork 1 false (read (.params stop))
  targets : Concurs fork 1 false (read .targets)
  moreClasses : Concurs fork 1 false (read .moreClasses)
  rescues : Concurs fork 1 false (read .rescues)
  whens : Concurs fork 1 false (read .whens)
  constPath : ∀ path line, Concurs fork 1 false (read (.constPath path line))
  modifiers : ∀ node, Agrees fork fork.least false (read (.modifiers node))
  conditionTail : ∀ left, Agrees fork fork.least false (read (.conditionTail left))
  moreArguments : Agrees fork fork.least false (read .moreArguments)
  chain : ∀ node, Agrees fork fork.least true (read (.chain node))
  chainAbsorbs : ∀ node, Absorbs fork true (read (.chain node))
  operationTail : ∀ level tighter left, Agrees fork fork.least (lacksBitAnd (level :: tighter))
    (read (.operationTail level tighter left))
  tailAbsorbs : ∀ level tighter left, lacksBitAnd tighter = true →
    Absorbs fork (lacksBitAnd (level :: tighter)) (read (.operationTail level tighter left))
  condition : Leaves fork fork.least false (read .condition)
  negation : Leaves fork fork.least false (read .negation)
  expression : Leaves fork fork.least false (read .expression)
  ternary : Leaves fork fork.least false (read .ternary)
  operation : ∀ levels, Leaves fork fork.least (lacksBitAnd levels) (read (.operation levels))
  signed : Leaves fork fork.least true (read .signed)
  unary : Leaves fork fork.least true (read .unary)
  argument : Leaves fork fork.least false (read .argument)
  argumentValue : Leaves fork fork.least false (read .argumentValue)
  otherwise : Leaves fork fork.least false (read .otherwise)

/-- The `&` is on one of the levels of the grammar. -/
theorem AgreesOn.levels {fork : Fork} {read : Reader} (h : AgreesOn fork read) :
    Leaves fork fork.least false (read (.operation BinaryOp.levels)) := by
  have hlevels : lacksBitAnd BinaryOp.levels = false := by decide
  rw [← hlevels]
  exact h.operation BinaryOp.levels

section Small

variable {fork : Fork} {k : Nat} {loose : Bool}

theorem concurs_next : Concurs fork k loose next :=
  concurs_current_bind fun here => concurs_advance_bind (agrees_pure here.token)

theorem concurs_takeWord : Concurs fork k loose takeWord := by
  refine concurs_current_bind fun here => ?_
  split
  · exact concurs_advance_bind (agrees_pure _)
  · exact (leaves_expected _).toConcurs

/-- What is declared does not depend on the tokens. -/
theorem concurs_declare (name : String) : Concurs fork k loose (declare name) :=
  (still_declare name).agrees.toConcurs

end Small

section Rules

variable {fork : Fork} {read : Reader} (hread : AgreesOn fork read)
include hread

/-! ### Arguments, items and entries -/

/-- Behind an argument the run stays if no comma comes. -/
theorem agrees_moreArguments : Agrees fork fork.least false (Rule.moreArguments read) := by
  refine ⟨concurs_eat_ite ?_ (concurs_pure _), fun _ => .eat rfl (atMark_pure _)⟩
  refine (concurs_skipNewlines.bind_leaves fun _ => ?_).agrees
  exact hread.argument.bind fun arg => hread.moreArguments.bind fun others => agrees_pure _

/-- A comma goes on with the items, also before the closing bracket. -/
theorem concurs_moreItems (close : Token) : Concurs fork 1 false (Rule.moreItems read close) := by
  refine concurs_skipNewlines.bind_weak fun _ => ?_
  refine concurs_eat_ite (.of_weak ?_) (concurs_pure _)
  refine concurs_skipNewlines.bind_weak fun _ => concurs_isAt_bind close fun closed => ?_
  split
  · exact concurs_pure _
  · refine hread.argument.weak.bind_weak fun item => ?_
    exact (hread.moreItems close).bind_weak fun others => concurs_pure _

/-- The closing bracket is taken, so a list that ends before a mark or at it has not seen it.  This
holds also before a mark that opens something. -/
theorem leaves_items {close : Token} (hclose : close ≠ .done) (closeText : String) (k : Nat) :
    Leaves fork k false (Rule.items read close closeText) := by
  refine Leaves.allowingDo (concurs_skipNewlines.bind_leaves fun _ => ?_)
  refine leaves_isAt_bind close fun closed => ?_
  extract_lets rest
  have hclosed : ∀ found, Leaves fork k false (rest found) :=
    fun _ => leaves_expect_bind closeText hclose (agrees_pure _)
  split
  · exact hclosed []
  · refine hread.argument.weak.bind_leaves fun item => ?_
    exact (hread.moreItems close).bind_leaves fun others => hclosed (item :: others)

/-- Without parentheses there is one argument at least, so no run stays at the mark. -/
theorem leaves_commandArguments : Leaves fork fork.least false (Rule.commandArguments read) :=
  Leaves.leavingDo (hread.argument.bind fun _ => hread.moreArguments.bind fun _ => agrees_pure _)

/-- An entry is a label with a value, a splat or a pair. -/
theorem concurs_entry : Concurs fork 1 false (Rule.entry read) := by
  refine concurs_current_bind fun here => ?_
  split
  · refine concurs_advance_bind (.of_weak ?_)
    refine concurs_skipNewlines.bind_weak fun _ => ?_
    exact hread.argumentValue.weak.bind_weak fun value => concurs_pure _
  · refine concurs_eat_ite (.of_weak ?_) ?_
    · exact hread.ternary.weak.bind_weak fun value => concurs_pure _
    · refine hread.ternary.weak.bind_weak fun key => ?_
      refine concurs_skipNewlines.bind_weak fun _ => ?_
      refine Leaves.toConcurs (leaves_expect_bind _ nofun (.of_weak ?_))
      refine concurs_skipNewlines.bind_weak fun _ => ?_
      exact hread.argumentValue.weak.bind_weak fun value => concurs_pure _

theorem concurs_moreEntries : Concurs fork 1 false (Rule.moreEntries read) := by
  refine concurs_skipNewlines.bind_weak fun _ => ?_
  refine concurs_eat_ite (.of_weak ?_) (concurs_pure _)
  refine concurs_skipNewlines.bind_weak fun _ => concurs_isAt_bind _ fun closed => ?_
  split
  · exact concurs_pure _
  · refine (concurs_entry hread).bind_weak fun found => ?_
    exact hread.moreEntries.bind_weak fun others => concurs_pure _

/-- The closing brace has to come. -/
theorem leaves_entries : Leaves fork fork.least false (Rule.entries read) := by
  refine Leaves.allowingDo (concurs_skipNewlines.bind_leaves fun _ => ?_)
  refine leaves_isAt_bind _ fun closed => ?_
  extract_lets rest
  have hclosed : ∀ found, Leaves fork fork.least false (rest found) :=
    fun _ => leaves_expect_bind _ nofun (agrees_pure _)
  split
  · exact hclosed []
  · refine (concurs_entry hread).bind_leaves fun first => ?_
    exact hread.moreEntries.bind_leaves fun others => hclosed (first :: others)

/-! ### Bodies with clauses -/

/-- Behind a comma another class may be missing, before an arrow. -/
theorem concurs_moreClasses : Concurs fork 1 false (Rule.moreClasses read) := by
  refine concurs_eat_ite (.of_weak ?_) (concurs_pure _)
  refine concurs_skipNewlines.bind_weak fun _ => concurs_current_bind fun here => ?_
  split
  · exact concurs_pure _
  · refine hread.ternary.weak.bind_weak fun found => ?_
    exact hread.moreClasses.bind_weak fun others => concurs_pure _

omit hread in
theorem concurs_rescueBinder : Concurs fork 1 false Rule.rescueBinder := by
  refine concurs_line_bind fun line => concurs_next.bind_weak fun token => ?_
  split
  · exact (concurs_declare _).bind_weak fun _ => concurs_pure _
  · exact concurs_pure _
  · exact concurs_pure _
  · exact (leaves_fail _).toConcurs

/-- With or without a variable, the body of the clause follows. -/
theorem concurs_rescueClause : Concurs fork 1 false (Rule.rescueClause read) := by
  refine concurs_current_bind fun here => ?_
  extract_lets rest
  have hrest : ∀ classes, Concurs fork 1 false (rest classes) := by
    intro classes
    refine concurs_eat_ite (.of_weak (concurs_rescueBinder.bind_weak fun binder => ?_)) ?_
    all_goals
      rw [pure_bind]
      refine (concurs_eat _).bind_weak fun _ => ?_
      exact (hread.statements _).bind_weak fun _ => concurs_pure _
  split
  · exact hrest []
  · refine hread.ternary.weak.bind_weak fun first => ?_
    exact hread.moreClasses.bind_weak fun others => hrest (first :: others)

theorem concurs_rescues : Concurs fork 1 false (Rule.rescues read) := by
  refine concurs_eat_ite (.of_weak ?_) (concurs_pure _)
  refine (concurs_rescueClause hread).bind_weak fun clause => ?_
  exact hread.rescues.bind_weak fun others => concurs_pure _

theorem concurs_statementsBehind? (keyword : String) (stops : List String) :
    Concurs fork 1 false (Rule.statementsBehind? read keyword stops) := by
  refine concurs_eat_ite (.of_weak ?_) (concurs_pure _)
  exact (hread.statements stops).bind_weak fun _ => concurs_pure _

/-- The `end` has to come, so no run stays at the mark. -/
theorem leaves_clauses : Leaves fork fork.least false (Rule.clauses read) := by
  refine (hread.statements _).bind_leaves fun body => ?_
  refine hread.rescues.bind_leaves fun rescues => ?_
  refine (concurs_statementsBehind? hread _ _).bind_leaves fun otherwise => ?_
  refine (concurs_statementsBehind? hread _ _).bind_leaves fun ensure => ?_
  exact leaves_expect_bind _ nofun (agrees_pure _)

/-- The clauses are one statement, or there are none. -/
theorem leaves_bodyToEnd : Leaves fork fork.least false (Rule.bodyToEnd read) :=
  leaves_line_bind fun _ => (leaves_clauses hread).bind fun _ => agrees_pure _

/-! ### Parameters and blocks -/

omit hread in
theorem concurs_optionalName : Concurs fork 1 false Rule.optionalName := by
  refine concurs_current_bind fun here => ?_
  split
  · exact concurs_advance_bind (agrees_pure _)
  · exact concurs_pure _

theorem leaves_parenParams : Leaves fork fork.least false (Rule.parenParams read) :=
  (hread.params .paren).bind_leaves fun _ => leaves_expect_bind _ nofun (agrees_pure _)

/-- Each kind of parameter is told by its first token. -/
theorem concurs_param : Concurs fork 1 false (Rule.param read) := by
  refine concurs_eat_ite (.of_weak ?_) ?_
  · exact concurs_optionalName.bind_weak fun _ => concurs_pure _
  refine concurs_eat_ite (.of_weak ?_) ?_
  · exact concurs_optionalName.bind_weak fun _ => concurs_pure _
  refine concurs_eat_ite (.of_weak ?_) ?_
  · exact concurs_takeWord.bind_weak fun _ => concurs_pure _
  refine concurs_eat_ite (.of_weak ?_) ?_
  · exact (leaves_parenParams hread).weak.bind_weak fun _ => concurs_pure _
  -- without a sign it is a keyword or a plain name
  refine concurs_current_bind fun here => ?_
  split
  · refine concurs_advance_bind (.of_weak ?_)
    refine concurs_current_bind fun behind => ?_
    split
    · exact concurs_pure _
    · exact hread.ternary.weak.bind_weak fun _ => concurs_pure _
  · refine concurs_takeWord.bind_weak fun name => ?_
    refine concurs_eat_ite (.of_weak ?_) (concurs_pure _)
    exact hread.ternary.weak.bind_weak fun _ => concurs_pure _

/-- A list of parameters ends before its closing token, which is not taken here. -/
theorem concurs_params (stop : ParamsEnd) : Concurs fork 1 false (Rule.params read stop) := by
  refine concurs_skipNewlines.bind_weak fun _ => concurs_current_bind fun here => ?_
  split
  · exact concurs_pure _
  refine (concurs_param hread).bind_weak fun first => ?_
  extract_lets rest
  have hrest : Concurs fork 1 false (rest ()) := by
    refine concurs_skipNewlines.bind_weak fun _ => ?_
    refine concurs_eat_ite (.of_weak ?_) (concurs_pure _)
    exact (hread.params stop).bind_weak fun _ => concurs_pure _
  split
  · exact (concurs_declare _).bind_weak fun _ => hrest
  · exact hrest

/-- The closing brace has to come. -/
theorem leaves_bracedBody : Leaves fork fork.least false (Rule.bracedBody read) :=
  (Concurs.allowingDo (hread.statements [])).bind_leaves fun _ =>
    leaves_expect_bind _ nofun (agrees_pure _)

/-- The bars around the parameters of a block are taken, so the run agrees also at the mark. -/
theorem agrees_blockParams : Agrees fork fork.least false (Rule.blockParams read) := by
  refine ⟨?_, fun _ => .eat rfl (.eat rfl (atMark_pure _))⟩
  refine concurs_eat_ite (agrees_pure _) (concurs_eat_ite ?_ (concurs_pure _))
  refine Leaves.agrees ((hread.params .pipe).closedByPipe.bind_leaves fun found => ?_)
  exact leaves_expect_bind _ nofun (agrees_pure _)

/-- The braces of a block, or its `do` and `end`, are taken. -/
theorem concurs_block (call : Node) : Concurs fork fork.least false (Rule.block read call) := by
  refine concurs_isAt_bind _ fun braces => concurs_advance_bind (Leaves.agrees ?_)
  refine Leaves.withScope false ((agrees_blockParams hread).weak.bind_leaves fun params => ?_)
  split
  · exact (leaves_bracedBody hread).bind fun body => agrees_pure _
  · exact (leaves_bodyToEnd hread).allowingDo.bind fun body => agrees_pure _

/-- The parameters of a lambda may be without parentheses. -/
theorem leaves_lambda (line : Nat) : Leaves fork fork.least false (Rule.lambda read line) := by
  refine Leaves.withScope false (leaves_eat_ite nofun
    ((leaves_parenParams hread).weak.bind_leaves fun params => ?_).agrees
    ((hread.params .body).bind_leaves fun params => ?_))
  all_goals
    refine leaves_eat_ite nofun ?_ ?_
    · exact ((leaves_bracedBody hread).bind fun body => agrees_pure _).agrees
    · refine leaves_expect_bind _ nofun (Leaves.agrees ?_)
      exact (leaves_bodyToEnd hread).allowingDo.bind fun body => agrees_pure _

/-! ### Conditionals and loops -/

theorem concurs_header : Concurs fork 1 false (Rule.header read) := by
  refine hread.condition.weak.bind_weak fun condition => ?_
  refine concurs_skipTerminators.bind_weak fun _ => ?_
  exact (concurs_eat _).bind_weak fun _ => concurs_pure _

/-- The last branch takes the `end`. -/
theorem leaves_conditional (line : Nat) :
    Leaves fork fork.least false (Rule.conditional read line) := by
  refine (concurs_header hread).bind_leaves fun condition => ?_
  refine (hread.statements _).bind_leaves fun body => ?_
  exact hread.otherwise.bind fun otherwise => agrees_pure _

/-- An `elsif` is a conditional of its own, up to the same `end`. -/
theorem leaves_otherwise : Leaves fork fork.least false (Rule.otherwise read) := by
  refine leaves_line_bind fun line => leaves_eat_ite nofun ?_ ?_
  · exact ((leaves_conditional hread line).bind fun found => agrees_pure _).agrees
  · refine (concurs_statementsBehind? hread _ _).bind_leaves fun found => ?_
    exact leaves_expect_bind _ nofun (agrees_pure _)

theorem leaves_unlessThen (line : Nat) :
    Leaves fork fork.least false (Rule.unlessThen read line) := by
  refine (concurs_header hread).bind_leaves fun condition => ?_
  refine (hread.statements _).bind_leaves fun body => ?_
  refine (concurs_statementsBehind? hread _ _).bind_leaves fun otherwise => ?_
  exact leaves_expect_bind _ nofun (agrees_pure _)

/-- The values of a branch are arguments, and a line end or a `then` ends them. -/
theorem concurs_whenBranch : Concurs fork 1 false (Rule.whenBranch read) := by
  refine hread.argument.weak.bind_weak fun first => ?_
  refine hread.moreArguments.weak.bind_weak fun others => ?_
  refine concurs_skipTerminators.bind_weak fun _ => (concurs_eat _).bind_weak fun _ => ?_
  exact (hread.statements _).bind_weak fun body => concurs_pure _

theorem concurs_whens : Concurs fork 1 false (Rule.whens read) := by
  refine concurs_eat_ite (.of_weak ?_) (concurs_pure _)
  refine (concurs_whenBranch hread).bind_weak fun branch => ?_
  exact hread.whens.bind_weak fun others => concurs_pure _

/-- A `case` may be without a subject, but not without its `end`. -/
theorem leaves_caseOf (line : Nat) : Leaves fork fork.least false (Rule.caseOf read line) := by
  refine leaves_current_bind fun here => ?_
  extract_lets rest
  have hrest : ∀ subject, Leaves fork fork.least false (rest subject) := by
    intro subject
    refine concurs_skipTerminators.bind_leaves fun _ => ?_
    refine hread.whens.bind_leaves fun branches => ?_
    split
    · exact leaves_of_fails fun _ => ⟨_, rfl⟩
    · refine (concurs_statementsBehind? hread _ _).bind_leaves fun otherwise => ?_
      exact leaves_expect_bind _ nofun (agrees_pure _)
  split
  · exact hrest none
  · exact hread.condition.weak.bind_leaves fun subject => hrest (some subject)

/-- The `do` of a loop is not that of a block in its condition. -/
theorem concurs_loopHeader : Concurs fork 1 false (Rule.loopHeader read) := by
  refine hread.condition.weak.leavingDo.bind_weak fun found => ?_
  refine (concurs_eat _).bind_weak fun _ => ?_
  exact concurs_skipTerminators.bind_weak fun _ => concurs_pure _

theorem leaves_loopBody : Leaves fork fork.least false (Rule.loopBody read) :=
  (hread.statements _).bind_leaves fun _ => leaves_expect_bind _ nofun (agrees_pure _)

theorem leaves_loop (negated : Bool) (line : Nat) :
    Leaves fork fork.least false (Rule.loop read negated line) :=
  (concurs_loopHeader hread).bind_leaves fun _ =>
    (leaves_loopBody hread).bind fun _ => agrees_pure _

/-- The variable of a loop is declared before what it goes through is read. -/
theorem leaves_forEach (line : Nat) : Leaves fork fork.least false (Rule.forEach read line) := by
  refine leaves_line_bind fun binderLine => concurs_takeWord.bind_leaves fun name => ?_
  refine (concurs_declare name).bind_leaves fun _ => ?_
  refine leaves_expect_bind _ nofun (Leaves.agrees ?_)
  refine (concurs_loopHeader hread).bind_leaves fun iterated => ?_
  exact (leaves_loopBody hread).bind fun body => agrees_pure _

/-! ### Definitions -/

omit hread in
/-- The token behind the one before a mark is the mark, which is no dot. -/
theorem concurs_singleton? (line : Nat) : Concurs fork 1 false (Rule.singleton? line) := by
  refine (looks_peek 1).bind (fun s x hx => ?_) fun behind => ?_
  · obtain ⟨here, y, rfl⟩ := List.exists_cons_of_ne_nil hx
    cases y with
    | nil =>
      have hmark : (fork.mark.token != .dot) = true := bne_iff_ne.2 (Fork.mark_ne rfl)
      have hmark' : (fork.mark'.token != .dot) = true := bne_iff_ne.2 (Fork.mark'_ne rfl)
      show (if (fork.mark.token != .dot) = true then _ else _) =
        (if (fork.mark'.token != .dot) = true then _ else _)
      rw [if_pos hmark, if_pos hmark']
    | cons next y => rfl
  · split
    · exact concurs_pure _
    refine concurs_current_bind fun here => ?_
    -- the object and its dot are taken together
    extract_lets found rest
    split
    · refine concurs_advance_bind (.of_weak ?_)
      exact concurs_advance_bind (agrees_pure _)
    · exact concurs_pure _

omit hread in
/-- So the sign of an assignment that stands before a mark is no part of the name. -/
theorem concurs_definedName : Concurs fork 1 false Rule.definedName := by
  refine concurs_next.bind_weak fun token => ?_
  extract_lets rest
  have hrest : ∀ name, Concurs fork 1 false (rest name) := by
    intro name
    refine concurs_current_bind fun here => ?_
    refine (looks_peek 1).bind (fun s x hx => ?_) fun behind => ?_
    · obtain ⟨first, y, rfl⟩ := List.exists_cons_of_ne_nil hx
      cases y with
      -- the parenthesis of a setter would be the mark
      | nil =>
        show (if (here.token == .op .assign && !here.spaced && fork.mark.token == .lparen) = true
            then _ else _) =
          (if (here.token == .op .assign && !here.spaced && fork.mark'.token == .lparen) = true
            then _ else _)
        rw [Fork.mark_beq rfl, Fork.mark'_beq rfl]
      | cons next y => rfl
    · split
      · exact concurs_advance_bind (agrees_pure _)
      · exact concurs_pure _
  split
  · exact hrest _
  · exact hrest _
  · exact hrest _
  · exact (leaves_of_fails fun _ => ⟨_, rfl⟩).toConcurs

/-- The parameters of a method may be without parentheses, up to the end of the line. -/
theorem concurs_methodParams : Concurs fork 1 false (Rule.methodParams read) := by
  refine concurs_eat_ite (.of_weak (leaves_parenParams hread).weak) ?_
  refine concurs_current_bind fun here => ?_
  split
  · exact concurs_pure _
  · exact concurs_pure _
  · exact concurs_pure _
  · exact hread.params .line

/-- The body of a method takes the `end`, in a scope of its own. -/
theorem leaves_method (line : Nat) : Leaves fork fork.least false (Rule.method read line) := by
  refine (concurs_singleton? line).bind_leaves fun singleton => ?_
  refine concurs_definedName.bind_leaves fun name => ?_
  refine Leaves.withScope true ((concurs_methodParams hread).bind_leaves fun params => ?_)
  exact (leaves_bodyToEnd hread).bind fun body => agrees_pure _

omit hread in
theorem concurs_constantName : Concurs fork 1 false Rule.constantName := by
  refine concurs_next.bind_weak fun token => ?_
  split
  · exact concurs_pure _
  · exact (leaves_fail _).toConcurs

/-- A path goes on with a constant behind each `::`. -/
theorem concurs_constPath (path : Node) (line : Nat) :
    Concurs fork 1 false (Rule.constPath read path line) := by
  refine concurs_eat_ite (.of_weak ?_) (concurs_pure _)
  exact concurs_constantName.bind_weak fun name => hread.constPath _ line

theorem concurs_definedPath : Concurs fork 1 false (Rule.definedPath read) :=
  concurs_line_bind fun line =>
    concurs_constantName.bind_weak fun _ => hread.constPath _ line

/-- The superclass is an expression, and the body comes behind it or at once. -/
theorem leaves_classDef (line : Nat) : Leaves fork fork.least false (Rule.classDef read line) := by
  refine (concurs_definedPath hread).bind_leaves fun path => ?_
  refine leaves_eat_ite nofun (hread.expression.weak.bind_leaves fun superclass => ?_).agrees ?_
  all_goals
    rw [pure_bind]
    exact (leaves_bodyToEnd hread).withScope true |>.bind fun _ => agrees_pure _

theorem leaves_moduleDef (line : Nat) : Leaves fork fork.least false (Rule.moduleDef read line) :=
  (concurs_definedPath hread).bind_leaves fun _ =>
    (leaves_bodyToEnd hread).withScope true |>.bind fun _ => agrees_pure _

/-! ### Literals -/

omit hread in
/-- The code of an interpolation is read from tokens of its own. -/
theorem still_interpolation (source : String) (line : Nat) :
    Still (Rule.interpolation read source line) := by
  intro s a s' tokens hrun
  cases hlex : lexFrom s.file line source with
  | error failure =>
    have hlex' : lexFrom (s.at tokens).file line source = .error failure := hlex
    rw [Rule.interpolation, run_get_bind, hlex'] at hrun
    cases hrun
  | ok code =>
    -- what comes of the code does not depend on the tokens around the string
    have houtcome : ∀ others, (Rule.interpolation read source line).outcome (s.at others) =
        interpolated (s.at others)
          ((Rule.program read).outcome (.start s.file code s.scopes (s.depth + 1))) := fun others =>
      outcome_interpolation (show lexFrom (s.at others).file line source = .ok code from hlex) read
    rw [run_eq_ok_iff, houtcome] at hrun
    cases hprogram : (Rule.program read).outcome
        (.start s.file code s.scopes (s.depth + 1)) with
    | error failure inner =>
      rw [hprogram] at hrun
      cases hrun
    | ok body inner =>
      rw [hprogram] at hrun
      cases hrun
      refine ⟨rfl, fun others => ?_⟩
      rw [run_eq_ok_iff, houtcome, hprogram]
      rfl

omit hread in
theorem still_segments (parts : List StringPart) : Still (Rule.segments read parts) := by
  induction parts with
  | nil => exact still_pure _
  | cons part others ih =>
    cases part with
    | text content => exact ih.bind fun found => still_pure _
    | code source line =>
      exact (still_interpolation source line).bind fun body => ih.bind fun found => still_pure _

omit hread in
/-- What a string holds does not depend on the tokens around it. -/
theorem still_stringForm (parts : List StringPart) : Still (Rule.stringForm read parts) := by
  refine (still_segments parts).bind fun found => ?_
  split
  · exact still_pure _
  · exact still_pure _

omit hread in
/-- The strings that stand side by side end before a mark or at it. -/
theorem Fork.strings_eq (x : List Located) : ∃ found y,
    (Cursor.ofTokens (fork.first x)).strings = (found, .ofTokens (fork.first y)) ∧
      (Cursor.ofTokens (fork.second x)).strings = (found, .ofTokens (fork.second y)) := by
  have hstop : ∀ (here : Located) (ahead : List Located), (∀ parts, here.token ≠ .str parts) →
      Cursor.strings ⟨here, ahead⟩ = ([], ⟨here, ahead⟩) := by
    intro here ahead hhere
    cases ahead with
    | nil => rfl
    | cons next ahead =>
      rw [Cursor.strings, Cursor.stringsFrom]
      split
      next parts hparts => exact absurd hparts (hhere parts)
      · rfl
  -- the marks are no strings, so both runs stop at the same token
  induction x with
  | nil =>
    exact ⟨[], [], hstop _ _ fun _ => Fork.mark_ne rfl, hstop _ _ fun _ => Fork.mark'_ne rfl⟩
  | cons here y ih =>
    by_cases hhere : ∃ parts, here.token = .str parts
    · obtain ⟨parts, hparts⟩ := hhere
      obtain ⟨found, y', hfirst, hsecond⟩ := ih
      have hgo : ∀ ahead : List Located, ahead ≠ [] → Cursor.strings ⟨here, ahead⟩ =
          (parts :: (Cursor.ofTokens ahead).strings.1, (Cursor.ofTokens ahead).strings.2) := by
        intro ahead hne
        obtain ⟨next, others, rfl⟩ := List.exists_cons_of_ne_nil hne
        rw [Cursor.strings, Cursor.stringsFrom]
        split
        next parts' hparts' =>
          rw [hparts] at hparts'
          cases hparts'
          rfl
        next hother => exact absurd hparts (hother parts)
      refine ⟨parts :: found, y', ?_, ?_⟩
      · rw [Fork.first_cons, Cursor.ofTokens_cons, hgo _ (Fork.first_ne_nil _), hfirst]
      · rw [Fork.second_cons, Cursor.ofTokens_cons, hgo _ (Fork.second_ne_nil _), hsecond]
    · have hne : ∀ parts, here.token ≠ .str parts := fun parts hparts => hhere ⟨parts, hparts⟩
      exact ⟨[], here :: y, hstop _ _ hne, hstop _ _ hne⟩

omit hread in
/-- Strings side by side are one literal, which ends where no string comes. -/
theorem agrees_strings (first : List StringPart) :
    Agrees fork fork.least false (Rule.strings read first) := by
  have hrun : ∀ s : State, (Rule.strings read first).run s =
      (Rule.stringForm read (s.cursor.strings.1.foldl appendParts first)).run
        { s with cursor := s.cursor.strings.2 } := fun _ => rfl
  -- both runs have the same literals, and go on at the same place
  have hsame : ∀ (s : State) (x : List Located) (a : Form) (s' : State) (x' : List Located),
      (Rule.strings read first).run (s.at (fork.first x)) = .ok (a, s'.at (fork.first x')) →
      fork.Same a s' x' ((Rule.strings read first).run (s.at (fork.second x))) := by
    intro s x a s' x' hfirst
    obtain ⟨found, y, hstrings, hstrings'⟩ := @Fork.strings_eq fork x
    rw [hrun, State.cursor_at, hstrings] at hfirst
    rw [hrun, State.cursor_at, hstrings']
    obtain ⟨rfl, hstill⟩ := (still_stringForm _).run_second hfirst
    exact hstill
  refine ⟨⟨?_, fun s x a s' x' _ hfirst _ => .inr (hsame s x a s' x' hfirst)⟩,
    fun _ s a s' hfirst => hsame s [] a s' [] hfirst⟩
  intro s a s' hfirst
  rw [hrun] at hfirst
  exact ((still_stringForm _).forward _ a s' hfirst).trans s.cursor.tokens_strings

end Rules
end LaneScript
