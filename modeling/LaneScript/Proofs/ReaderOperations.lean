import LaneScript.Proofs.DisciplinedRules

/-!
# Operations of the reader of a script

`IsOperation read p` lists what a script is read with: the small readers, the rules of the grammar
for a reader `read` of their parts, that reader itself, and whatever is put together from these, in
a sequence or by one of the combinators that change the state.

Whatever the operation and whatever the state it starts in, the state behind it is the one before
it, but for the names of the innermost scope and for the place (`restored_of_isOperation`).
-/

namespace LaneScript

open LaneScript.Parser

/-- The operations of which a reader of scripts is made, given a reader of the nonterminals. -/
inductive IsOperation (read : Reader) : {α : Type} → Parser α → Prop where
  -- the small readers
  | look : IsOperation read (get : Parser State)
  | current : IsOperation read Parser.current
  | peek (offset : Nat) : IsOperation read (Parser.peek offset)
  | line : IsOperation read Parser.line
  | advance : IsOperation read Parser.advance
  | next : IsOperation read Parser.next
  | fail {α : Type} (fault : Fault) : IsOperation read (Parser.fail fault : Parser α)
  | unexpected {α : Type} : IsOperation read (Parser.unexpected : Parser α)
  | expected {α : Type} (what : Expectation) : IsOperation read (Parser.expected what : Parser α)
  | isAt (token : Token) : IsOperation read (Parser.isAt token)
  | isAtCallParen : IsOperation read Parser.isAtCallParen
  | startsExpression : IsOperation read Parser.startsExpression
  | eat (token : Token) : IsOperation read (Parser.eat token)
  | eatWord (word : String) : IsOperation read (Parser.eatWord word)
  | eatOp (operator : Operator) : IsOperation read (Parser.eatOp operator)
  | expect (token : Token) (text : String) : IsOperation read (Parser.expect token text)
  | expectWord (word : String) : IsOperation read (Parser.expectWord word)
  | takeWord : IsOperation read Parser.takeWord
  | skipNewlines : IsOperation read Parser.skipNewlines
  | skipTerminators : IsOperation read Parser.skipTerminators
  | declare (name : String) : IsOperation read (Parser.declare name)
  | isLocal (name : String) : IsOperation read (Parser.isLocal name)
  | countDown (levels : Nat) : IsOperation read (Parser.countDown levels)
  -- sequences, and readers in a changed state
  | pure {α : Type} (a : α) : IsOperation read (Pure.pure a : Parser α)
  | bind {α β : Type} {p : Parser α} {f : α → Parser β} (hp : IsOperation read p)
      (hf : ∀ a, IsOperation read (f a)) : IsOperation read (p >>= f)
  | nested {α : Type} {p : Parser α} (hp : IsOperation read p) : IsOperation read (Parser.nested p)
  | withScope {α : Type} (hard : Bool) {p : Parser α} (hp : IsOperation read p) :
      IsOperation read (Parser.withScope hard p)
  | allowingDo {α : Type} {p : Parser α} (hp : IsOperation read p) :
      IsOperation read (Parser.allowingDo p)
  | leavingDo {α : Type} {p : Parser α} (hp : IsOperation read p) :
      IsOperation read (Parser.leavingDo p)
  | closedByPipe {α : Type} {p : Parser α} (hp : IsOperation read p) :
      IsOperation read (Parser.closedByPipe p)
  -- nonterminals, their rules and whole scripts
  | nonterminal (n : Nonterminal) : IsOperation read (read n)
  | rule (n : Nonterminal) : IsOperation read (Rule.of read n)
  | program : IsOperation read (Rule.program read)
  -- literals
  | interpolation (source : String) (line : Nat) :
      IsOperation read (Rule.interpolation read source line)
  | segments (parts : List StringPart) : IsOperation read (Rule.segments read parts)
  | stringForm (parts : List StringPart) : IsOperation read (Rule.stringForm read parts)
  | strings (first : List StringPart) : IsOperation read (Rule.strings read first)
  -- arguments, items and entries
  | items (close : Token) (closeText : String) : IsOperation read (Rule.items read close closeText)
  | commandArguments : IsOperation read (Rule.commandArguments read)
  | startsArgument : IsOperation read Rule.startsArgument
  | arguments? : IsOperation read (Rule.arguments? read)
  | entry : IsOperation read (Rule.entry read)
  | entries : IsOperation read (Rule.entries read)
  -- bodies, parameters and blocks
  | rescueBinder : IsOperation read Rule.rescueBinder
  | rescueClause : IsOperation read (Rule.rescueClause read)
  | statementsBehind? (keyword : String) (stops : List String) :
      IsOperation read (Rule.statementsBehind? read keyword stops)
  | clauses : IsOperation read (Rule.clauses read)
  | bodyToEnd : IsOperation read (Rule.bodyToEnd read)
  | optionalName : IsOperation read Rule.optionalName
  | parenParams : IsOperation read (Rule.parenParams read)
  | param : IsOperation read (Rule.param read)
  | bracedBody : IsOperation read (Rule.bracedBody read)
  | blockParams : IsOperation read (Rule.blockParams read)
  | block (call : Node) : IsOperation read (Rule.block read call)
  | lambda (line : Nat) : IsOperation read (Rule.lambda read line)
  -- calls and what is chained to a value
  | call (receiver : Option Node) (name : String) (safe : Bool) (line : Nat) :
      IsOperation read (Rule.call read receiver name safe line)
  | methodName : IsOperation read Rule.methodName
  | callOn (receiver : Node) (safe : Bool) : IsOperation read (Rule.callOn read receiver safe)
  | lookedUp (scope : Node) : IsOperation read (Rule.lookedUp read scope)
  | indexed (receiver : Node) : IsOperation read (Rule.indexed read receiver)
  -- conditionals and loops
  | header : IsOperation read (Rule.header read)
  | conditional (line : Nat) : IsOperation read (Rule.conditional read line)
  | unlessThen (line : Nat) : IsOperation read (Rule.unlessThen read line)
  | whenBranch : IsOperation read (Rule.whenBranch read)
  | caseOf (line : Nat) : IsOperation read (Rule.caseOf read line)
  | loopHeader : IsOperation read (Rule.loopHeader read)
  | loopBody : IsOperation read (Rule.loopBody read)
  | loop (negated : Bool) (line : Nat) : IsOperation read (Rule.loop read negated line)
  | forEach (line : Nat) : IsOperation read (Rule.forEach read line)
  -- definitions
  | singleton? (line : Nat) : IsOperation read (Rule.singleton? line)
  | definedName : IsOperation read Rule.definedName
  | methodParams : IsOperation read (Rule.methodParams read)
  | method (line : Nat) : IsOperation read (Rule.method read line)
  | constantName : IsOperation read Rule.constantName
  | definedPath : IsOperation read (Rule.definedPath read)
  | classDef (line : Nat) : IsOperation read (Rule.classDef read line)
  | moduleDef (line : Nat) : IsOperation read (Rule.moduleDef read line)
  -- primary expressions
  | construct {line : Nat} {word : String} {p : Parser Node}
      (h : Rule.construct? read line word = some p) : IsOperation read p
  | definedForm : IsOperation read (Rule.definedForm read)
  | word (text : String) (line : Nat) : IsOperation read (Rule.word read text line)
  | parenthesized (line : Nat) : IsOperation read (Rule.parenthesized read line)
  | constant (name : String) (line : Nat) : IsOperation read (Rule.constant read name line)
  | outermost (line : Nat) : IsOperation read (Rule.outermost line)
  | formBehind {line : Nat} {token : Token} {p : Parser Node}
      (h : Rule.formBehind? read line token = some p) : IsOperation read p
  | primary : IsOperation read (Rule.primary read)
  -- operations and statements
  | operand : IsOperation read (Rule.operand read)
  | power (base : Node) : IsOperation read (Rule.power read base)
  | joining? (level : List BinaryOp) : IsOperation read (Rule.joining? level)
  | range : IsOperation read (Rule.range read)
  | target (node : Node) : IsOperation read (Rule.target node)
  | assigning? : IsOperation read Rule.assigning?
  | oneTarget : IsOperation read Rule.oneTarget
  | multiAssign : IsOperation read (Rule.multiAssign read)
  | statement : IsOperation read (Rule.statement read)

/-- Every operation restores the state, at every depth and whatever the tokens. -/
theorem IsOperation.restores {read : Reader} (hread : FollowingReader read) {α : Type}
    {p : Parser α} (hp : IsOperation read p) (depth : Nat) :
    Restores ⟨depth, False⟩ p fun _ _ _ => True := by
  -- nothing is said of the tokens (`False`), so that what needs them written is void
  induction hp generalizing depth with
  | look => exact quiet_get.state
  | current => exact quiet_current.state
  | peek offset => exact (quiet_peek offset).state
  | line => exact quiet_line.state
  | advance => exact quiet_advance.state
  | next => exact quiet_next.state
  | fail fault => exact (fails_fail False.elim).state
  | unexpected => exact fails_unexpected.state
  | expected what => exact (fails_expected what).state
  | isAt token => exact (quiet_isAt token).state
  | isAtCallParen => exact quiet_isAtCallParen.state
  | startsExpression => exact quiet_startsExpression.state
  | eat token => exact (quiet_eat token).state
  | eatWord word => exact (quiet_eat _).state
  | eatOp operator => exact (quiet_eat _).state
  | expect token text => exact (quiet_expect token text).state
  | expectWord word => exact (quiet_expect _ _).state
  | takeWord => exact quiet_takeWord.state
  | skipNewlines => exact quiet_skipNewlines.state
  | skipTerminators => exact quiet_skipTerminators.state
  | declare name =>
    exact (follows_declare (c := .ofNames [name]) (.inl (List.mem_singleton_self name))).state
  | isLocal name => exact (follows_isLocal name (c := ∅)).state
  | countDown levels =>
    cases levels with
    | zero => exact (fails_fail False.elim).state
    | succ levels => exact (quiet_pure _).state
  | pure a => exact (quiet_pure a).state
  | bind _ _ ihp ihf => exact (ihp depth).bind fun a _ s' hs' _ => ihf a depth s' hs'
  | nested _ ih =>
    exact (Restores.nested (d := ⟨depth, False⟩) (ih (depth + 1))).mono fun _ _ _ _ => trivial
  | withScope hard _ ih => exact (ih depth).withScope fun _ _ _ _ => trivial
  | allowingDo _ ih => exact (ih depth).allowingDo
  | leavingDo _ ih => exact (ih depth).leavingDo
  | closedByPipe _ ih => exact (ih depth).closedByPipe
  | nonterminal n => exact (hread _ n).state
  | rule n => exact (follows_rule hread n).state
  | program => exact (follows_program hread).state
  | interpolation source line => exact (follows_interpolation hread source line).state
  | segments parts => exact (follows_segments hread parts).state
  | stringForm parts => exact (follows_stringForm hread False.elim).state
  | strings first => exact (follows_strings hread False.elim).state
  | items close closeText => exact (follows_items hread close closeText).state
  | commandArguments => exact (follows_commandArguments hread).state
  | startsArgument => exact quiet_startsArgument.state
  | arguments? => exact (follows_arguments? hread).state
  | entry => exact (follows_entry hread).state
  | entries => exact (follows_entries hread).state
  | rescueBinder => exact follows_rescueBinder.state
  | rescueClause => exact (follows_rescueClause hread).state
  | statementsBehind? keyword stops => exact (follows_statementsBehind? hread keyword stops).state
  | clauses => exact (follows_clauses hread).state
  | bodyToEnd => exact (follows_bodyToEnd hread).state
  | optionalName => exact quiet_optionalName.state
  | parenParams => exact (follows_parenParams hread).state
  | param => exact (follows_param hread).state
  | bracedBody => exact (follows_bracedBody hread).state
  | blockParams => exact (follows_blockParams hread).state
  | block call => exact (follows_block hread call).state
  | lambda line => exact (follows_lambda hread line).state
  | call receiver name safe line => exact (follows_call hread False.elim safe line).state
  | methodName => exact quiet_methodName.state
  | callOn receiver safe => exact (follows_callOn hread receiver safe).state
  | lookedUp scope => exact (follows_lookedUp hread scope).state
  | indexed receiver => exact (follows_indexed hread receiver).state
  | header => exact (follows_header hread).state
  | conditional line => exact (follows_conditional hread line).state
  | unlessThen line => exact (follows_unlessThen hread line).state
  | whenBranch => exact (follows_whenBranch hread).state
  | caseOf line => exact (follows_caseOf hread line).state
  | loopHeader => exact (follows_loopHeader hread).state
  | loopBody => exact (follows_loopBody hread).state
  | loop negated line => exact (follows_loop hread negated line).state
  | forEach line => exact (follows_forEach hread line).state
  | singleton? line => exact (follows_singleton? line).state
  | definedName => exact quiet_definedName.state
  | methodParams => exact (follows_methodParams hread).state
  | method line => exact (follows_method hread line).state
  | constantName => exact quiet_constantName.state
  | definedPath => exact (follows_definedPath hread).state
  | classDef line => exact (follows_classDef hread line).state
  | moduleDef line => exact (follows_moduleDef hread line).state
  | construct h => exact (follows_construct? hread h).state
  | definedForm => exact (follows_definedForm hread).state
  | word text line => exact (follows_word hread False.elim line).state
  | parenthesized line => exact (follows_parenthesized hread line).state
  | constant name line => exact (follows_constant hread False.elim line).state
  | outermost line => exact (follows_outermost line).state
  | formBehind h => exact (follows_formBehind? hread False.elim h).state
  | primary => exact (follows_primary hread).state
  | operand => exact (follows_operand hread).state
  | power base => exact (follows_power hread base).state
  | joining? level => exact (quiet_joining? level).state
  | range => exact (follows_range hread).state
  | target node => exact (follows_target node).state
  | assigning? => exact (follows_assigning? (c := ∅)).state
  | oneTarget => exact follows_oneTarget.state
  | multiAssign => exact (follows_multiAssign hread).state
  | statement => exact (follows_statement hread).state

/-- An operation that comes to an end restores the state, from any state. -/
theorem restored_of_isOperation {bound : Nat} {α : Type} {p : Parser α}
    (hp : IsOperation (readAt bound) p) {s s' : State} {a : α} (h : p.run s = .ok (a, s')) :
    s.Restored s' :=
  ((hp.restores (follows_readAt bound) s.depth).of_run ⟨rfl, False.elim⟩ h).1

/-- A lambda behind its arrow, in the middle of a script: its parameter and its variable are gone
behind it, and so is the rule that a `do` opens a block in its body. -/
theorem restored_lambda :
    ∃ node s', (Rule.lambda (readAt 40) 1).run
        ⟨"Fastfile", ⟨⟨.lparen, 1, false⟩, [⟨.word "x", 1, false⟩, ⟨.rparen, 1, false⟩,
          ⟨.lbrace, 1, true⟩, ⟨.word "y", 1, true⟩, ⟨.op .assign, 1, true⟩, ⟨.word "x", 1, true⟩,
          ⟨.rbrace, 1, true⟩, ⟨.done, 1, false⟩]⟩, [⟨["z"], false⟩, ⟨[], true⟩], 2, true, 5⟩ =
        .ok (node, s') ∧
      State.Restored
        ⟨"Fastfile", ⟨⟨.lparen, 1, false⟩, [⟨.word "x", 1, false⟩, ⟨.rparen, 1, false⟩,
          ⟨.lbrace, 1, true⟩, ⟨.word "y", 1, true⟩, ⟨.op .assign, 1, true⟩, ⟨.word "x", 1, true⟩,
          ⟨.rbrace, 1, true⟩, ⟨.done, 1, false⟩]⟩, [⟨["z"], false⟩, ⟨[], true⟩], 2, true, 5⟩
        s' := by
  generalize hs : (State.mk _ _ _ _ _ _) = s
  have hends : ((Rule.lambda (readAt 40) 1).run s).isOk = true := by
    rw [← hs]
    decide +kernel
  cases hrun : (Rule.lambda (readAt 40) 1).run s with
  | error failure =>
    rw [hrun] at hends
    cases hends
  | ok result => exact ⟨result.1, result.2, rfl, restored_of_isOperation (.lambda 1) hrun⟩

end LaneScript
