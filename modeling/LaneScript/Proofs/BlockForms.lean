import LaneScript.Proofs.AppendedLines
import LaneScript.Proofs.ReadPrimaries

/-!
# The two forms of a block

A block stands in braces or between `do` and `end`.  The forms are read by different rules: only the
second one takes clauses, and so its statements end at more words.  A call whose block stands in
braces can still be written in the other form, and it is read as the same tree,
`parse_do_of_parse_braces`.  The writer of scripts relies on this: it has one form for all blocks.

The inputs part twice, at the token that opens the block and at the one that closes it, and each
time this is a `Fork`.  The arguments lie before the first one, the parameters and the statements
before the second one, and both are read alike.  Behind the block the tokens are the same again, and
what is read from there on depends on nothing but the block and the place.

A fork asks that behind the word `end` neither a comma nor the sign of an assignment stands.  In a
script that can be read this never is so, since a block is no target; this is shown along the way
from the block to the statement that it starts, `LedByPrimary`.
-/

namespace LaneScript

open LaneScript.Parser

variable {token : Token} {read : Reader} {s : State} {here : Located} {ahead : List Located}
variable {bound : Nat} {name : String}

/-! ### Statements up to a brace and up to a word -/

theorem Token.isBarren_of_endsStatements (h : Rule.endsStatements Rule.clauseWords token = true) :
    token.isBarren = true := by
  cases token with
  | word text => exact h
  | done => rfl
  | rbrace => rfl
  | rparen => rfl
  | _ => cases h

theorem Rule.endsStatements_of_nil (h : Rule.endsStatements [] token = true) (stops : List String) :
    Rule.endsStatements stops token = true := by
  cases token with
  | word text => cases h
  | done => rfl
  | rbrace => rfl
  | rparen => rfl
  | _ => cases h

/-- No statement is read where none is left. -/
theorem run_statements_nil {stops : List String}
    (hskip : s.cursor.skip isTerminator = .ofTokens (here :: ahead))
    (hends : Rule.endsStatements stops here.token = true) :
    (Rule.statements read stops).run s = .ok ([], s.at (here :: ahead)) := by
  have hplace : { s with cursor := s.cursor.skip isTerminator } = s.at (here :: ahead) := by
    rw [hskip]
    rfl
  rw [Rule.statements, skipTerminators, run_modify_bind, hplace, run_current_bind, if_pos hends]
  rfl

/-- A statement and the others behind it. -/
theorem run_statements_cons {stops : List String} {s s₁ s' : State} {first : Node}
    {others : List Node} (hskip : s.cursor.skip isTerminator = .ofTokens (here :: ahead))
    (hends : Rule.endsStatements stops here.token = false)
    (hfirst : (Rule.statement read).run (s.at (here :: ahead)) = .ok (first, s₁))
    (hbehind : isTerminator s₁.cursor.current.token = true ∨
      Rule.endsStatements stops s₁.cursor.current.token = true)
    (hothers : (read (.statements stops)).run s₁ = .ok (others, s')) :
    (Rule.statements read stops).run s = .ok (first :: others, s') := by
  have hplace : { s with cursor := s.cursor.skip isTerminator } = s.at (here :: ahead) := by
    rw [hskip]
    rfl
  have hnone : ¬ (!isTerminator s₁.cursor.current.token &&
      !Rule.endsStatements stops s₁.cursor.current.token) = true := by
    rcases hbehind with hbehind | hbehind <;> simp [hbehind]
  rw [Rule.statements, skipTerminators, run_modify_bind, hplace, run_current_bind,
    if_neg (Bool.eq_false_iff.1 hends), run_bind_ok hfirst, looks_current.run_bind]
  extract_lets behind rest
  rw [if_neg hnone]
  exact run_bind_ok hothers _

/-- Statements up to a closing brace are read alike up to the word `end`.  They stop at no other of
the words: where one stands, no statement starts. -/
theorem Fork.run_statements_closing {fork : Fork} (hkind : fork.kind = .closing) {s s' : State}
    {x : List Located} {body : List Node}
    (hrun : (readAt bound (.statements [])).run (s.at (fork.first x)) =
      .ok (body, s'.at (fork.first []))) :
    (readAt bound (.statements Rule.clauseWords)).run (s.at (fork.second x)) =
      .ok (body, s'.at (fork.second [])) := by
  have hline : fork.kind ≠ .line := by
    rw [hkind]
    nofun
  have hopening : fork.kind ≠ .opening := by
    rw [hkind]
    nofun
  have hmark : Rule.endsStatements [] fork.mark.token = true := by
    rw [fork.token, hkind]
    rfl
  have hmark' : Rule.endsStatements Rule.clauseWords fork.mark'.token = true := by
    rw [fork.token', hkind]
    rfl
  -- each statement takes one request of the bound
  induction bound generalizing s x body with
  | zero => cases hrun
  | succ bound ih =>
    obtain ⟨_, rfl, ⟨-, rfl, hplace⟩ |
      ⟨hends, first, s₁, others, hstatement, hbehind, hothers, rfl⟩⟩ :=
        exists_of_run_statements hrun
    · -- no statement is left before the mark
      rcases fork.skipTerminators_cases x with ⟨hskip, hskip'⟩ | ⟨y, hy, hskip, -⟩
      · rw [State.skip_at hskip] at hplace
        rw [(Fork.at_eq hplace).2]
        exact run_statements_nil (hskip' hline) hmark'
      · rw [State.skip_at hskip] at hplace
        exact absurd (Fork.at_eq hplace).1.symm hy
    rcases fork.skipTerminators_cases x with ⟨hskip, -⟩ | ⟨y, hy, hskip, hskip'⟩
    · rw [State.skip_at hskip] at hends
      exact absurd (hends.symm.trans hmark) Bool.false_ne_true
    rw [State.skip_at hskip] at hends hstatement
    obtain ⟨y₁, hplace, hsame⟩ := fork.exists_of_statement hopening hy hstatement hothers
    rw [← hplace] at hothers hbehind
    obtain ⟨here, y, rfl⟩ := List.exists_cons_of_ne_nil hy
    -- a word that ends the statements of the second form starts none in the first
    have hends' : Rule.endsStatements Rule.clauseWords here.token = false := by
      rw [Bool.eq_false_iff]
      intro hstop
      obtain ⟨failure, hfails⟩ := failsOn_statement (Token.isBarren_of_endsStatements hstop) s
      rw [first_cons, hfails] at hstatement
      cases hstatement
    have hstatement' := hsame.resolve_right fun hdiffers => hline hdiffers.1.kind_eq
    refine run_statements_cons hskip' hends' hstatement' ?_ (ih hothers)
    -- behind the statement stands the second mark, or the same token on both inputs
    cases y₁ with
    | nil => exact .inr hmark'
    | cons next y₁ => exact hbehind.imp_right fun hnext => Rule.endsStatements_of_nil hnext _

/-! ### Readers in a changed state -/

section Wrapped

variable {α : Type} {p : Parser α} {s s' : State} {a : α}

/-- What is taken back in any case has been taken back behind a reader that has come to its end. -/
theorem run_finally_modify_eq_ok {leave : State → State} :
    Parser.run (tryFinally p (modify leave)) s = .ok (a, s') ↔
      ∃ s₁, p.run s = .ok (a, s₁) ∧ leave s₁ = s' := by
  rw [sameEnds_finally]
  constructor
  · intro h
    obtain ⟨a, s₁, hrun, hleave⟩ := exists_of_run_bind h
    obtain ⟨rfl, rfl⟩ := Prod.mk.inj (Except.ok.inj hleave)
    exact ⟨s₁, hrun, rfl⟩
  · rintro ⟨s₁, hrun, rfl⟩
    exact run_bind_ok hrun _

/-- The count of the claims is set aside, and given back. -/
theorem run_allowingDo_eq_ok : (allowingDo p).run s = .ok (a, s') ↔
    ∃ s₁, p.run { s with claimsDo := 0 } = .ok (a, s₁) ∧
      { s₁ with claimsDo := s.claimsDo } = s' := by
  rw [allowingDo, run_get_bind, run_modify_bind]
  exact run_finally_modify_eq_ok

/-- The scope is put in front, and taken off again. -/
theorem run_withScope_eq_ok {hard : Bool} : (withScope hard p).run s = .ok (a, s') ↔
    ∃ s₁, p.run { s with scopes := .empty hard :: s.scopes } = .ok (a, s₁) ∧
      { s₁ with scopes := s₁.scopes.tail } = s' := by
  rw [withScope, run_modify_bind]
  exact run_finally_modify_eq_ok

end Wrapped

/-- A token that has to be there has been taken. -/
theorem exists_of_run_expect {text : String} {s s' : State} {u : Unit}
    (h : (expect token text).run s = .ok (u, s')) :
    s.cursor.current.token = token ∧ s' = { s with cursor := s.cursor.advance } := by
  rw [expect, eat, bind_assoc, (looks_isAt token).run_bind] at h
  split at h
  next hat =>
    cases h
    exact ⟨beq_iff_eq.1 hat, rfl⟩
  next => cases h

/-- A place is known from the one behind it. -/
theorem Cursor.tokens_of_advance {cursor : Cursor} {rest : List Located} (hne : rest ≠ [])
    (hlast : rest ≠ [cursor.current]) (h : cursor.advance = .ofTokens rest) :
    cursor.tokens = cursor.current :: rest := by
  obtain ⟨current, ahead⟩ := cursor
  have htokens := (congrArg Cursor.tokens h).trans (Cursor.tokens_ofTokens hne)
  cases ahead with
  | nil => exact absurd htokens.symm hlast
  | cons next others => exact congrArg (current :: ·) htokens

/-! ### Bodies and blocks -/

/-- A body without clauses, with its `end`. -/
theorem run_bodyToEnd_of_statements {s s' : State} {body : List Node}
    (hhere : here.token = .word "end") (hne : ahead ≠ [])
    (hbody : (readAt bound (.statements Rule.clauseWords)).run s =
      .ok (body, s'.at (here :: ahead))) :
    (Rule.bodyToEnd (readAt bound)).run s = .ok (body, s'.at ahead) := by
  -- at the `end` each of the clauses is asked for, and none is there
  have hother : ∀ word : String, word ≠ "end" → here.token ≠ .word word := by
    intro word hword htoken
    exact hword (Token.word.inj (htoken.symm.trans hhere))
  have hrescues : (readAt bound .rescues).run (s'.at (here :: ahead)) =
      .ok ([], s'.at (here :: ahead)) := by
    cases bound with
    | zero => cases hbody
    | succ bound =>
      show (Rule.rescues (readAt bound)).run _ = _
      rw [Rule.rescues, eatWord, run_eat_bind_of_ne (hother "rescue" (by decide))]
      rfl
  have hclause : ∀ (keyword : String) (stops : List String), keyword ≠ "end" →
      (Rule.statementsBehind? (readAt bound) keyword stops).run (s'.at (here :: ahead)) =
        .ok (none, s'.at (here :: ahead)) := by
    intro keyword stops hkeyword
    rw [Rule.statementsBehind?, eatWord, run_eat_bind_of_ne (hother keyword hkeyword)]
    rfl
  have hclauses : (Rule.clauses (readAt bound)).run s =
      .ok (⟨body, [], none, none⟩, s'.at ahead) := by
    rw [Rule.clauses, run_bind_ok hbody, run_bind_ok hrescues,
      run_bind_ok (hclause "else" _ (by decide)), run_bind_ok (hclause "ensure" _ (by decide)),
      expectWord, run_expect_bind _ hhere hne]
    rfl
  rw [Rule.bodyToEnd, looks_line.run_bind, run_bind_ok hclauses]
  rfl

/-- A block behind the token that opens it, for a reader of its body. -/
def blockBehind (read : Reader) (call : Node) (body : Parser (List Node)) : Parser Node :=
  withScope false do
    let params ← Rule.blockParams read
    let found ← body
    return ⟨.block call params found, call.line⟩

theorem run_block_braces {call : Node} {opening : Located} (hopening : opening.token = .lbrace)
    (hne : ahead ≠ []) :
    (Rule.block read call).run (s.at (opening :: ahead)) =
      (blockBehind read call (Rule.bracedBody read)).run (s.at ahead) := by
  rw [Rule.block, run_isAt_bind, hopening, run_advance_bind hne]
  rfl

theorem run_block_words {call : Node} {opening : Located} (hopening : opening.token = .word "do")
    (hne : ahead ≠ []) :
    (Rule.block read call).run (s.at (opening :: ahead)) =
      (blockBehind read call (allowingDo (Rule.bodyToEnd read))).run (s.at ahead) := by
  rw [Rule.block, run_isAt_bind, hopening, run_advance_bind hne]
  rfl

section Closing

variable {fork : Fork} (hkind : fork.kind = .closing) (hrests : fork.rest' = fork.rest)
  (hrest : ∀ here : Located, here.token = .rbrace → fork.rest ≠ [here]) {bound : Nat}
include hkind hrests hrest

/-- A body in braces is read alike up to its `end`, from where it starts. -/
theorem Fork.run_body_closing {s s' : State} {x : List Located} {body : List Node}
    (hsuffix : s.cursor.tokens <:+ fork.first x)
    (hrun : (Rule.bracedBody (readAt bound)).run s = .ok (body, s'.at fork.rest)) :
    ∃ y, s.at (fork.first y) = s ∧
      (allowingDo (Rule.bodyToEnd (readAt bound))).run (s.at (fork.second y)) =
        .ok (body, s'.at fork.rest) := by
  have hne : fork.rest ≠ [] := by
    refine fork.rest_ne ?_
    rw [hkind]
    nofun
  have hend : fork.mark'.token = .word "end" := by
    rw [fork.token', hkind]
    rfl
  have hforward := ((agreesOn_readAt fork bound).statements []).forward
  obtain ⟨body, s₁, hbody, hclosed⟩ := exists_of_run_bind hrun
  obtain ⟨_, s₂, hexpect, hpure⟩ := exists_of_run_bind hclosed
  obtain ⟨rfl, rfl⟩ := Prod.mk.inj (Except.ok.inj hpure)
  obtain ⟨hbrace, hadvance⟩ := exists_of_run_expect hexpect
  obtain ⟨s₃, hstatements, rfl⟩ := run_allowingDo_eq_ok.1 hbody
  have hbehind : s₃.cursor.tokens <:+ s.cursor.tokens :=
    hforward { s with claimsDo := 0 } _ _ hstatements
  -- the brace that is taken is the one at which the inputs part
  have htokens : s₃.cursor.tokens = fork.first [] := by
    have hclosing : s₃.cursor.tokens = s₃.cursor.current :: fork.rest :=
      Cursor.tokens_of_advance hne (hrest _ hbrace) (congrArg State.cursor hadvance).symm
    have hlength : s₃.cursor.tokens.length = (fork.first []).length := by
      rw [hclosing]
      rfl
    refine List.IsSuffix.eq_of_length ?_ hlength
    exact List.suffix_of_suffix_length_le (hbehind.trans hsuffix) (List.suffix_append _ _)
      (Nat.le_of_eq hlength)
  obtain ⟨y, hy, -, -⟩ := Fork.exists_first_between (htokens ▸ hbehind) hsuffix
  refine ⟨y, State.at_tokens hy, ?_⟩
  have hfirst : (readAt bound (.statements [])).run ({ s with claimsDo := 0 }.at (fork.first y)) =
      .ok (body, s₃.at (fork.first [])) := by
    rw [State.at_tokens htokens, ← hstatements]
    exact congrArg _ (State.at_tokens hy)
  have hsecond := run_bodyToEnd_of_statements hend (hrests ▸ hne)
    (Fork.run_statements_closing hkind hfirst)
  refine run_allowingDo_eq_ok.2 ⟨_, hsecond, ?_⟩
  -- both forms leave the state as it was behind the statements
  calc { s₃.at fork.rest' with claimsDo := s.claimsDo }
    _ = { s₃ with claimsDo := s.claimsDo }.at fork.rest := by rw [hrests]; rfl
    _ = (s'.at fork.rest).at fork.rest := by rw [hadvance]; rfl
    _ = s'.at fork.rest := rfl

/-- So is a block. -/
theorem Fork.run_block_closing {call node : Node} {s s' : State} {x : List Located}
    (hrun : (blockBehind (readAt bound) call (Rule.bracedBody (readAt bound))).run
      (s.at (fork.first x)) = .ok (node, s'.at fork.rest)) :
    (blockBehind (readAt bound) call (allowingDo (Rule.bodyToEnd (readAt bound)))).run
      (s.at (fork.second x)) = .ok (node, s'.at fork.rest) := by
  have hline : fork.kind ≠ .line := by
    rw [hkind]
    exact ForkKind.noConfusion
  have hleast : fork.least ≤ 0 := by
    rw [Fork.least, hkind]
    rfl
  have hagrees := agrees_blockParams (agreesOn_readAt fork bound)
  obtain ⟨s₁, hinner, hleave⟩ := run_withScope_eq_ok.1 hrun
  obtain ⟨params, s₂, hparams, hbehind⟩ := exists_of_run_bind hinner
  obtain ⟨body, s₃, hbody, hpure⟩ := exists_of_run_bind hbehind
  obtain ⟨rfl, rfl⟩ := Prod.mk.inj (Except.ok.inj hpure)
  -- leaving the scope of the block does not move
  have hplace : s₃.at fork.rest = s₃ := by
    have hcursor : s₃.cursor = .ofTokens fork.rest := congrArg State.cursor hleave
    rw [State.at, ← hcursor]
  have hsuffix : s₂.cursor.tokens <:+ fork.first x := by
    have hforward := hagrees.forward _ _ _ hparams
    rwa [State.tokens_at { s with scopes := _ } (Fork.first_ne_nil _)] at hforward
  rw [← hplace] at hbody
  obtain ⟨y, hy, hbody'⟩ := Fork.run_body_closing hkind hrests hrest hsuffix hbody
  -- the parameters are the same, and so is what follows them
  have hparams' := hagrees.run_second hline (s := { s with scopes := .empty false :: s.scopes })
    (hparams.trans (by rw [hy])) (Nat.le_trans hleast (Nat.zero_le y.length))
  refine run_withScope_eq_ok.2 ⟨s₃, ?_, hleave⟩
  refine (run_bind_ok hparams' _).trans ?_
  rw [run_bind_ok hbody', hplace]
  rfl

end Closing

/-! ### Arguments and calls -/

/-- At a token that opens a block no argument of a command starts. -/
theorem run_arguments?_none (hhere : here.token = .lbrace ∨ here.token = .word "do") :
    (Rule.arguments? read).run (s.at (here :: ahead)) = .ok (none, s.at (here :: ahead)) := by
  have hparen : (here.token == .lparen && !here.spaced) = false := by
    rcases hhere with h | h <;> rw [h] <;> rfl
  have hargument : here.startsArgument ((s.at (here :: ahead)).cursor.peek 1) = false := by
    unfold Located.startsArgument
    rcases hhere with h | h
    · rw [h]
    · rw [h]
      exact Bool.and_false _
  rw [Rule.arguments?, run_isAtCallParen_bind, hparen]
  show Parser.run (Rule.startsArgument >>= _) _ = _
  rw [looks_startsArgument.run_bind_of_eq hargument]
  rfl

theorem run_arguments?_paren {paren : Located} (hparen : paren.token = .lparen)
    (hspaced : paren.spaced = false) (hne : ahead ≠ []) :
    (Rule.arguments? read).run (s.at (paren :: ahead)) =
      (do return some (← Rule.items read .rparen ")")).run (s.at ahead) := by
  rw [Rule.arguments?, run_isAtCallParen_bind, hparen, hspaced]
  exact run_advance_bind hne _

/-- Arguments up to an opening brace are read alike up to the word `do`, and a `do` is claimed there
by no other construct than before. -/
theorem Fork.run_arguments_opening {fork : Fork} (hkind : fork.kind = .opening)
    {args : List Located}
    (hargs : ∀ first ∈ args.head?, first.token = .lparen ∧ first.spaced = false) {s s' : State}
    {found : Option (List Node)}
    (hrun : (Rule.arguments? (readAt bound)).run (s.at (fork.first args)) =
      .ok (found, s'.at (fork.first []))) :
    (Rule.arguments? (readAt bound)).run (s.at (fork.second args)) =
        .ok (found, s'.at (fork.second [])) ∧
      s'.claimsDo = s.claimsDo ∧ (args = [] → found = none) := by
  have hline : fork.kind ≠ .line := by
    rw [hkind]
    nofun
  have hmark : fork.mark.token = .lbrace := by
    rw [fork.token, hkind]
    rfl
  have hmark' : fork.mark'.token = .word "do" := by
    rw [fork.token', hkind]
    rfl
  cases args with
  | nil =>
    have hnone : (Rule.arguments? (readAt bound)).run (s.at (fork.first [])) =
        .ok (none, s.at (fork.first [])) := run_arguments?_none (.inl hmark)
    obtain ⟨rfl, hstate⟩ := Prod.mk.inj (Except.ok.inj (hrun.symm.trans hnone))
    have hclaims : (s'.at (fork.first [])).claimsDo = (s.at (fork.first [])).claimsDo := by
      rw [hstate]
    refine ⟨?_, hclaims, fun _ => rfl⟩
    rw [(Fork.at_eq hstate).2]
    exact run_arguments?_none (.inr hmark')
  | cons paren items =>
    obtain ⟨hparen, hspaced⟩ := hargs paren rfl
    rw [Fork.first_cons, run_arguments?_paren hparen hspaced (Fork.first_ne_nil _)] at hrun
    obtain ⟨found, s₁, hitems, hpure⟩ := exists_of_run_bind hrun
    obtain ⟨rfl, rfl⟩ := Prod.mk.inj (Except.ok.inj hpure)
    have hclose : Token.rparen ≠ .done := nofun
    have hagrees := (leaves_items (agreesOn_readAt fork bound) hclose ")" 0).agrees
    have hsame := hagrees.run_second hline hitems (Nat.zero_le _)
    -- between the parentheses a `do` is free, and behind them it is as it was
    obtain ⟨s₁, -, hclaims⟩ := run_allowingDo_eq_ok.1 hitems
    refine ⟨?_, (congrArg State.claimsDo hclaims).symm, nofun⟩
    rw [Fork.second_cons, run_arguments?_paren hparen hspaced (Fork.second_ne_nil _),
      run_bind_ok hsame]
    rfl

/-- Braces behind a call are its block, if it has no arguments or has them in parentheses. -/
theorem run_call_braces {s₀ s : State} {found : Option (List Node)} (line : Nat)
    (hrun : (Rule.arguments? read).run s₀ = .ok (found, s.at (here :: ahead)))
    (hbrace : here.token = .lbrace)
    (htakes : s₀.cursor.current.token = .lparen ∧ s₀.cursor.current.spaced = false ∨ found = none) :
    (Rule.call read none name false line).run s₀ =
      (Rule.block read ⟨.call none name (found.getD []) false, line⟩).run
        (s.at (here :: ahead)) := by
  rw [Rule.call, looks_isAtCallParen.run_bind, run_bind_ok hrun, run_isAt_bind, run_isAt_bind,
    run_get_bind, hbrace]
  -- only the arguments of a command would keep the braces from the call
  rcases htakes with ⟨hparen, hspaced⟩ | rfl
  · rw [hparen, hspaced]
    rfl
  · simp

/-- The call of a method by its name. -/
theorem run_primary_name (hname : name ∉ reservedWords) {head : Located}
    (hhead : head.token = .word name) (hlocal : Scope.sees name s.scopes = false)
    (hne : ahead ≠ []) :
    (Rule.primary read).run (s.at (head :: ahead)) =
      (Rule.call read none name false head.line).run (s.at ahead) := by
  rw [run_primary_word read hhead]
  exact run_word_name hname read head.line hlocal hne

/-! ### Readers that stay before the sign of a target -/

/-- The token stands behind a target of an assignment. -/
def Token.isBehindTarget : Token → Bool
  | .comma | .op .assign => true
  | _ => false

theorem Token.isBehindTarget_eq_false :
    token.isBehindTarget = false ↔ token ≠ .comma ∧ token ≠ .op .assign := by
  constructor
  · intro h
    constructor <;> rintro rfl <;> cases h
  · rintro ⟨hcomma, hassign⟩
    unfold Token.isBehindTarget
    split
    · exact absurd rfl hcomma
    · exact absurd rfl hassign
    · rfl

/-- What may stand behind a statement stands behind no target. -/
theorem Token.isBehindTarget_of_ends
    (h : isTerminator token = true ∨ Rule.endsStatements [] token = true) :
    token.isBehindTarget = false := by
  rcases h with h | h
  · rcases Bool.or_eq_true_iff.1 h with h | h <;> rw [beq_iff_eq.1 h] <;> rfl
  · cases token with
    | comma => cases h
    | op operator => cases h
    | _ => rfl

/-- Before a token that stands behind a target, the reader takes nothing and returns what is given,
unless it fails. -/
def Stays {α : Type} (a : α) (p : Parser α) : Prop :=
  ∀ (s : State) (here : Located) (ahead : List Located) (b : α) (s' : State),
    here.token.isBehindTarget = true → p.run (s.at (here :: ahead)) = .ok (b, s') →
      b = a ∧ s'.cursor.tokens = here :: ahead

theorem Stays.of_run {α : Type} {a : α} {p : Parser α}
    (h : ∀ (s : State) (here : Located) (ahead : List Located), here.token.isBehindTarget = true →
      p.run (s.at (here :: ahead)) = .ok (a, s.at (here :: ahead))) : Stays a p := by
  intro s here ahead b s' hhere hrun
  rw [h s here ahead hhere] at hrun
  cases hrun
  exact ⟨rfl, rfl⟩

/-- What stays in both steps stays. -/
theorem Stays.bind {α : Type} {a : α} {p : Parser α} {f : α → Parser α} (hp : Stays a p)
    (hf : Stays a (f a)) : Stays a (p >>= f) := by
  intro s here ahead c s'' hhere hrun
  obtain ⟨b, s', hfirst, hsecond⟩ := exists_of_run_bind hrun
  obtain ⟨rfl, htokens⟩ := hp s here ahead b s' hhere hfirst
  rw [← State.at_tokens htokens] at hsecond
  exact hf s' here ahead c s'' hhere hsecond

/-- With no requests left nothing is read at all. -/
theorem stays_readAt {n : Nonterminal} {tree : n.Tree}
    (h : ∀ bound, Stays tree (Rule.of (readAt bound) n)) (bound : Nat) :
    Stays tree (readAt bound n) := by
  cases bound with
  | zero =>
    intro s here ahead b s' _ hrun
    cases hrun
  | succ bound => exact h bound

/-- No link starts with the sign of a target. -/
theorem stays_chain (bound : Nat) (node : Node) : Stays node (readAt bound (.chain node)) := by
  refine stays_readAt (n := .chain node) (fun bound => .of_run fun s here ahead hhere => ?_) bound
  have hskip : (Cursor.mk here ahead).skip (· == .newline) = ⟨here, ahead⟩ :=
    Cursor.skip_of_false (beq_eq_false_iff_ne.2 (Token.ne_of_class hhere rfl))
  have hdot : (s.at (here :: ahead)).cursor.dotAhead = false := by
    rw [State.cursor_at, Cursor.ofTokens_cons, Cursor.dotAhead, hskip, Bool.or_eq_false_iff]
    exact ⟨beq_eq_false_iff_ne.2 (Token.ne_of_class hhere rfl),
      beq_eq_false_iff_ne.2 (Token.ne_of_class hhere rfl)⟩
  exact (run_chain_of_not_dot hdot node).trans
    (chainHere_of_stays (Token.ne_of_class hhere rfl) (Token.ne_of_class hhere rfl)
      (Token.ne_of_class hhere rfl) (Token.ne_of_class hhere rfl) node s)

/-- No operator is the sign of a target. -/
theorem stays_operationTail (bound : Nat) (level : List BinaryOp) (tighter : List (List BinaryOp))
    (node : Node) : Stays node (readAt bound (.operationTail level tighter node)) := by
  refine stays_readAt (n := .operationTail level tighter node)
    (fun bound => .of_run fun s here ahead hhere => ?_) bound
  have hnone : here.joinsNone level := fun op _ => Token.ne_of_class hhere rfl
  show (Rule.operationTail (readAt bound) level tighter node).run (s.at (here :: ahead)) = _
  rw [Rule.operationTail, run_line_bind, run_bind_ok (run_joining?_of_joinsNone hnone)]
  rfl

theorem stays_conditionTail (bound : Nat) (node : Node) :
    Stays node (readAt bound (.conditionTail node)) := by
  refine stays_readAt (n := .conditionTail node) (fun bound => .of_run fun s here ahead hhere => ?_)
    bound
  have hnone : connective? here.token = none := by
    unfold connective?
    split
    next htoken => exact absurd htoken (Token.ne_of_class hhere rfl)
    next htoken => exact absurd htoken (Token.ne_of_class hhere rfl)
    · rfl
  show (Rule.conditionTail (readAt bound) node).run (s.at (here :: ahead)) = _
  rw [Rule.conditionTail, run_current_bind, hnone]
  rfl

theorem stays_modifiers (bound : Nat) (node : Node) :
    Stays node (readAt bound (.modifiers node)) := by
  refine stays_readAt (n := .modifiers node) (fun bound => .of_run fun s here ahead hhere => ?_)
    bound
  show (Rule.modifiers (readAt bound) node).run (s.at (here :: ahead)) = _
  rw [Rule.modifiers, run_current_bind]
  split
  next htoken => exact absurd htoken (Token.ne_of_class hhere rfl)
  · rfl

/-! ### From a primary expression to its statement -/

/-- The node is a call with a block. -/
def Node.IsBlock (node : Node) : Prop := ∃ call params body, node.form = .block call params body

/-- The end of a level of nesting. -/
def leaveLevel : Parser Unit := do
  let outer ← countDown (← get).depth
  modify fun s => { s with depth := outer }

theorem stays_leaveLevel {α : Type} (a : α) : Stays a (do leaveLevel; return a) := by
  intro s here ahead b s' _ hrun
  rw [leaveLevel, bind_assoc, run_get_bind] at hrun
  cases hdepth : (s.at (here :: ahead)).depth with
  | zero =>
    rw [hdepth] at hrun
    cases hrun
  | succ depth =>
    rw [hdepth] at hrun
    cases hrun
    exact ⟨rfl, rfl⟩

theorem run_nested {α : Type} {p : Parser α} (h : s.depth < maxNesting) :
    (nested p).run s = Parser.run (tryFinally p leaveLevel) { s with depth := s.depth + 1 } := by
  rw [nested, run_get_bind, if_neg (Nat.not_le.2 h)]
  rfl

/-- The two readers come to the same ends, each from its own state. -/
def EndAlike {α : Type} (p : Parser α) (s : State) (q : Parser α) (t : State) : Prop :=
  ∀ found, p.run s = .ok found ↔ q.run t = .ok found

/-- What ends alike ends alike with the same reader behind it. -/
theorem EndAlike.bind {α β : Type} {p q : Parser α} {s t : State} (h : EndAlike p s q t)
    (f : α → Parser β) : EndAlike (p >>= f) s (q >>= f) t := by
  rintro ⟨b, s''⟩
  constructor
  · intro hrun
    obtain ⟨a, s', hp, hf⟩ := exists_of_run_bind hrun
    exact (run_bind_ok ((h _).1 hp) f).trans hf
  · intro hrun
    obtain ⟨a, s', hq, hf⟩ := exists_of_run_bind hrun
    exact (run_bind_ok ((h _).2 hq) f).trans hf

/-- Where the token comes first and no targets are announced, the reader reads a primary expression,
so many levels deeper, and what it does then depends on nothing else.  If the expression is a call
with a block, it does not go on before a token that stands behind a target. -/
def LedByPrimary (levels : Nat) (read : Reader) (head : Located) (p : Parser Node) : Prop :=
  ∃ behind : Node → Parser Node,
    (∀ (s : State) (ahead : List Located), s.depth + levels ≤ maxNesting →
      announcesTargets false (head :: ahead) = false →
      EndAlike p (s.at (head :: ahead)) (Rule.primary read >>= behind)
        ({ s with depth := s.depth + levels }.at (head :: ahead))) ∧
    ∀ node : Node, node.IsBlock → Stays node (behind node)

section Led

variable {levels bound : Nat} {head : Located} {p q : Parser Node} {read : Reader}

/-- A reader that stays behind the primary changes nothing. -/
theorem LedByPrimary.bind {f : Node → Parser Node} (h : LedByPrimary levels read head p)
    (hf : ∀ node : Node, node.IsBlock → Stays node (f node)) :
    LedByPrimary levels read head (p >>= f) := by
  obtain ⟨behind, hrun, hstays⟩ := h
  refine ⟨fun node => behind node >>= f, fun s ahead hdepth hnone => ?_,
    fun node hnode => (hstays node hnode).bind (hf node hnode)⟩
  rw [← bind_assoc]
  exact (hrun s ahead hdepth hnone).bind f

theorem LedByPrimary.of_run (h : LedByPrimary levels read head q)
    (heq : ∀ (s : State) (ahead : List Located), announcesTargets false (head :: ahead) = false →
      p.run (s.at (head :: ahead)) = q.run (s.at (head :: ahead))) :
    LedByPrimary levels read head p := by
  obtain ⟨behind, hrun, hstays⟩ := h
  refine ⟨behind, fun s ahead hdepth hnone found => ?_, hstays⟩
  rw [heq s ahead hnone]
  exact hrun s ahead hdepth hnone found

/-- Inside a level of nesting everything is the same, and the end of the level takes nothing. -/
theorem LedByPrimary.nested (h : LedByPrimary 0 read head p) :
    LedByPrimary 1 read head (nested p) := by
  obtain ⟨behind, hrun, hstays⟩ := h.bind fun node _ => stays_leaveLevel node
  refine ⟨behind, fun s ahead hdepth hnone found => ?_, hstays⟩
  rw [run_nested (s := s.at (head :: ahead)) hdepth, sameEnds_finally]
  exact hrun { s with depth := s.depth + 1 } ahead hdepth hnone found

theorem ledByPrimary_primary : LedByPrimary 0 read head (Rule.primary read) := by
  refine ⟨pure, fun s ahead _ _ => ?_, fun node _ => .of_run fun _ _ _ _ => rfl⟩
  rw [bind_pure]
  exact fun _ => Iff.rfl

variable {name : String} (hhead : head.token = .word name)
include hhead

theorem ledByPrimary_unary : LedByPrimary 0 (readAt bound) head (Rule.unary (readAt bound)) := by
  have hoperand : LedByPrimary 0 (readAt bound) head (Rule.operand (readAt bound)) :=
    ledByPrimary_primary.bind fun node _ => stays_chain bound node
  have hne : ∀ operator, head.token ≠ .op operator := by
    intro operator
    rw [hhead]
    exact Token.noConfusion
  refine hoperand.of_run fun s ahead _ => ?_
  -- three operators are asked for before the operand
  rw [Rule.unary, run_line_bind, eatOp, run_eat_bind_of_ne (hne _), if_neg Bool.false_ne_true,
    eatOp, run_eat_bind_of_ne (hne _), if_neg Bool.false_ne_true,
    eatOp, run_eat_bind_of_ne (hne _), if_neg Bool.false_ne_true]

theorem ledByPrimary_signed : LedByPrimary 0 (readAt bound) head (Rule.signed (readAt bound)) := by
  have hpower : ∀ node, Stays node (Rule.power (readAt bound) node) := fun node =>
    .of_run fun s here ahead hhere => run_power _ node (Token.ne_of_class hhere rfl)
  refine ((ledByPrimary_unary hhead).bind fun node _ => hpower node).of_run fun s ahead _ => ?_
  exact run_signed_of_ne (hhead ▸ nofun) s

/-- From the tightest level to the loosest one, each has its tail. -/
theorem ledByPrimary_operation (operators : List (List BinaryOp)) :
    LedByPrimary 0 (readAt bound) head (Rule.operation (readAt bound) operators) := by
  induction operators with
  | nil => exact ledByPrimary_signed hhead
  | cons level tighter ih =>
    exact ih.bind fun node _ => stays_operationTail bound level tighter node

theorem ledByPrimary_range : LedByPrimary 0 (readAt bound) head (Rule.range (readAt bound)) := by
  refine (ledByPrimary_operation hhead BinaryOp.levels).bind fun node _ =>
    .of_run fun s here ahead hhere => ?_
  rw [run_current_bind]
  split
  next htoken => exact absurd htoken (Token.ne_of_class hhere rfl)
  · rfl

theorem ledByPrimary_ternary :
    LedByPrimary 0 (readAt bound) head (Rule.ternary (readAt bound)) := by
  refine (ledByPrimary_range hhead).bind fun node _ => .of_run fun s here ahead hhere => ?_
  rw [run_line_bind, eatOp, run_eat_bind_of_ne (Token.ne_of_class hhere rfl)]
  rfl

/-- A block is no target, so it cannot be assigned to. -/
theorem ledByPrimary_expression :
    LedByPrimary 1 (readAt bound) head (Rule.expression (readAt bound)) := by
  refine ((ledByPrimary_ternary hhead).bind fun node hnode => ?_).nested
  intro s here ahead b s' hhere hrun
  obtain ⟨call, params, body, hform⟩ := hnode
  rw [looks_assigning?.run_bind] at hrun
  split at hrun
  · -- the sign of an assignment asks for a target, and a block is none
    rw [Rule.target, hform] at hrun
    cases hrun
  · cases hrun
    exact ⟨rfl, rfl⟩

/-- A statement that starts with a name starts with its primary. -/
theorem ledByPrimary_statement (hnot : name ≠ "not") :
    LedByPrimary 1 (readAt bound) head (Rule.statement (readAt bound)) := by
  have hnegation : LedByPrimary 1 (readAt bound) head (Rule.negation (readAt bound)) := by
    refine (ledByPrimary_expression hhead).of_run fun s ahead _ => ?_
    have hne : head.token ≠ .word "not" := fun h => hnot (Token.word.inj (hhead.symm.trans h))
    rw [Rule.negation, run_line_bind, eatWord, run_eat_bind_of_ne hne, if_neg Bool.false_ne_true]
  have hcondition : LedByPrimary 1 (readAt bound) head (Rule.condition (readAt bound)) :=
    hnegation.bind fun node _ => stays_conditionTail bound node
  exact (hcondition.bind fun node _ => stays_modifiers bound node).of_run
    fun s ahead hnone => run_statement hnone

end Led

/-! ### Scripts that start with a call -/

/-- Statements from a place on where one starts depend on the tokens only through this one. -/
theorem endAlike_statements {head : Located} {ahead ahead' : List Located}
    (hhead : head.token = .word name) (h : EndAlike (Rule.statement read) (s.at (head :: ahead'))
      (Rule.statement read) (s.at (head :: ahead))) :
    EndAlike (Rule.statements read []) (s.at (head :: ahead'))
      (Rule.statements read []) (s.at (head :: ahead)) := by
  have hterminator : isTerminator head.token = false := by
    rw [hhead]
    rfl
  have hends : ¬ Rule.endsStatements [] head.token = true := by
    rw [hhead]
    nofun
  intro found
  rw [Rule.statements, run_skipTerminators_bind hterminator, run_skipTerminators_bind hterminator,
    run_current_bind, run_current_bind, if_neg hends]
  exact h.bind _ found

section Script

variable {file name : String} {head : Located} (hhead : head.token = .word name)
  (hnot : name ≠ "not") {ahead : List Located}
  (hnone : announcesTargets false (head :: ahead) = false)
include hhead hnot hnone

/-- A script that starts with a name depends on the other tokens only through the primary expression
at its start, and how much there is to read. -/
theorem parse_eq_ok_of_primary {ahead' : List Located} {script : List Node}
    (hnone' : announcesTargets false (head :: ahead') = false)
    (hweight : tokensWeight ahead' = tokensWeight ahead)
    (hprimary : (Rule.primary (readAt (tokensWeight (head :: ahead)))).run
        (.start file (head :: ahead') [.empty true] 1) =
      (Rule.primary (readAt (tokensWeight (head :: ahead)))).run
        (.start file (head :: ahead) [.empty true] 1))
    (hscript : parse file (head :: ahead) = .ok script) :
    parse file (head :: ahead') = .ok script := by
  have hlevel : 0 + 1 ≤ maxNesting := by decide
  have hled : LedByPrimary 1 (readAt (tokensWeight (head :: ahead))) head
      (Rule.statement (readAt (tokensWeight (head :: ahead)))) := ledByPrimary_statement hhead hnot
  obtain ⟨behind, hrun, -⟩ := hled
  have hexpression : EndAlike (Rule.primary (readAt (tokensWeight (head :: ahead))))
      (.start file (head :: ahead') [.empty true] 1)
      (Rule.primary (readAt (tokensWeight (head :: ahead))))
      (.start file (head :: ahead) [.empty true] 1) := fun found => by rw [hprimary]
  -- from the expression to the statement, to the statements and to the script
  have hstatement : EndAlike (Rule.statement (readAt (tokensWeight (head :: ahead))))
      ((State.start file [] [.empty true] 0).at (head :: ahead'))
      (Rule.statement (readAt (tokensWeight (head :: ahead))))
      ((State.start file [] [.empty true] 0).at (head :: ahead)) := fun found =>
    ((hrun (.start file [] [.empty true] 0) ahead' hlevel hnone' found).trans
      (hexpression.bind behind found)).trans
      (hrun (.start file [] [.empty true] 0) ahead hlevel hnone found).symm
  obtain ⟨s', hprogram⟩ := exists_run_of_run' hscript
  have hprogram' := ((endAlike_statements hhead hstatement).bind _ _).2 hprogram
  have hweights : tokensWeight (head :: ahead') = tokensWeight (head :: ahead) := by
    rw [tokensWeight_cons, tokensWeight_cons, hweight]
  rw [parse, hweights]
  exact congrArg (Except.map Prod.fst) hprogram'

/-- Behind a block at the start of a script stands neither a comma nor the sign of an assignment. -/
theorem isBehindTarget_of_parse {script : List Node}
    (hscript : parse file (head :: ahead) = .ok script) {node : Node} (hnode : node.IsBlock)
    {s' : State} {rest : List Located}
    (hprimary : (Rule.primary (readAt (tokensWeight (head :: ahead)))).run
      (.start file (head :: ahead) [.empty true] 1) = .ok (node, s'.at rest)) :
    ∀ next ∈ rest.head?, next.token.isBehindTarget = false := by
  have hlevel : 0 + 1 ≤ maxNesting := by decide
  have hskip : (Cursor.ofTokens (head :: ahead)).skip isTerminator = .ofTokens (head :: ahead) := by
    refine Cursor.skip_of_false ?_
    rw [hhead]
    rfl
  have hled : LedByPrimary 1 (readAt (tokensWeight (head :: ahead))) head
      (Rule.statement (readAt (tokensWeight (head :: ahead)))) := ledByPrimary_statement hhead hnot
  obtain ⟨behind, hrun, hstays⟩ := hled
  obtain ⟨s, hstatements, -⟩ := exists_of_run_program hscript
  replace hstatements : (Rule.statements (readAt (tokensWeight (head :: ahead))) []).run
      ((State.start file [] [.empty true] 0).at (head :: ahead)) = .ok (script, s) := hstatements
  obtain ⟨_, rfl, ⟨hends, -, -⟩ | ⟨-, first, s₁, others, hstatement, hbehind, -, -⟩⟩ :=
    exists_of_run_statements hstatements
  · rw [State.skip_at hskip] at hends
    replace hends : Rule.endsStatements [] head.token = true := hends
    rw [hhead] at hends
    cases hends
  -- if one of them stood there, the statement would end before it
  rw [State.skip_at hskip] at hstatement
  replace hstatement := (hrun (.start file [] [.empty true] 0) ahead hlevel hnone _).1 hstatement
  replace hstatement := (run_bind_ok hprimary behind).symm.trans hstatement
  intro next hmem
  obtain ⟨others, rfl⟩ := List.head?_eq_some_iff.1 hmem
  rw [Bool.eq_false_iff]
  intro hhere
  obtain ⟨-, htokens⟩ := hstays node hnode s' next others first s₁ hhere hstatement
  obtain ⟨hcurrent, -⟩ := List.cons.inj htokens
  rw [hcurrent] at hbehind
  rw [Token.isBehindTarget_of_ends hbehind] at hhere
  cases hhere

end Script

/-! ### Calls with a block -/

/-- At the start of a script, a call by its name: its arguments are read up to the tokens that start
with its block, and the block is read from there up to the rest. -/
def TakesBlock (file : String) (head : Located) (name : String) (args block rest : List Located) :
    Prop :=
  ∃ (found : Option (List Node)) (node : Node) (s s' : State),
    (Rule.arguments? (readAt (tokensWeight (head :: (args ++ block))))).run
        (.start file (args ++ block) [.empty true] 1) = .ok (found, s.at block) ∧
      (Rule.block (readAt (tokensWeight (head :: (args ++ block))))
        ⟨.call none name (found.getD []) false, head.line⟩).run (s.at block) =
          .ok (node, s'.at rest)

/-- What is read as a block is one. -/
theorem isBlock_of_run {call node : Node} {body : Parser (List Node)} {s s' : State}
    (h : (blockBehind read call body).run s = .ok (node, s')) : node.IsBlock := by
  obtain ⟨s₁, hinner, -⟩ := run_withScope_eq_ok.1 h
  obtain ⟨params, s₂, -, hbehind⟩ := exists_of_run_bind hinner
  obtain ⟨found, s₃, -, hpure⟩ := exists_of_run_bind hbehind
  obtain ⟨rfl, -⟩ := Prod.mk.inj (Except.ok.inj hpure)
  exact ⟨call, params, found, rfl⟩

/-- No statement starts with what stands behind a target. -/
theorem failsOn_statements (hhere : here.token.isBehindTarget = true) :
    FailsOn (here :: ahead) (readAt bound (.statements [])) := by
  -- it neither ends a statement nor the statements, so one is read, and fails
  have hnone : ¬ (isTerminator here.token = true ∨ Rule.endsStatements [] here.token = true) := by
    intro h
    rw [Token.isBehindTarget_of_ends h] at hhere
    cases hhere
  have hbarren : here.token.isBarren = true := by
    cases htoken : here.token with
    | comma => rfl
    | op operator =>
      rw [htoken] at hhere
      cases operator with
      | assign => rfl
      | _ => cases hhere
    | _ =>
      rw [htoken] at hhere
      cases hhere
  intro s
  cases bound with
  | zero => exact ⟨_, rfl⟩
  | succ bound =>
    show ∃ failure, (Rule.statements (readAt bound) []).run (s.at (here :: ahead)) = .error failure
    rw [Rule.statements, run_skipTerminators_bind (Bool.eq_false_iff.2 fun h => hnone (.inl h)),
      run_current_bind, if_neg fun h => hnone (.inr h)]
    exact (failsOn_statement hbarren).bind _ s

/-- The parameters and statements of a block start with nothing that stands behind a target. -/
theorem isBehindTarget_of_block {call node : Node} {s s' : State}
    (h : (blockBehind (readAt bound) call (Rule.bracedBody (readAt bound))).run
      (s.at (here :: ahead)) = .ok (node, s')) : here.token.isBehindTarget = false := by
  rw [Bool.eq_false_iff]
  intro hhere
  obtain ⟨s₁, hinner, -⟩ := run_withScope_eq_ok.1 h
  obtain ⟨params, s₂, hparams, hbehind⟩ := exists_of_run_bind hinner
  obtain ⟨found, s₃, hbody, -⟩ := exists_of_run_bind hbehind
  obtain ⟨body, s₄, hstatements, -⟩ := exists_of_run_bind hbody
  obtain ⟨s₅, hrun, -⟩ := run_allowingDo_eq_ok.1 hstatements
  -- no parameters are there, and no statement starts
  have hnone : (Rule.blockParams (readAt bound)).run
      ({ s with scopes := .empty false :: s.scopes }.at (here :: ahead)) =
        .ok ([], { s with scopes := .empty false :: s.scopes }.at (here :: ahead)) := by
    rw [Rule.blockParams, eatOp, run_eat_bind_of_ne (Token.ne_of_class hhere rfl),
      if_neg Bool.false_ne_true, eatOp, run_eat_bind_of_ne (Token.ne_of_class hhere rfl)]
    rfl
  obtain ⟨rfl, rfl⟩ := Prod.mk.inj (Except.ok.inj (hparams.symm.trans hnone))
  have hfails : FailsOn (here :: ahead) (readAt bound (.statements [])) := failsOn_statements hhere
  obtain ⟨failure, hfailed⟩ := hfails { s with scopes := .empty false :: s.scopes, claimsDo := 0 }
  cases hfailed.symm.trans hrun

/-- Two braces, and the two words in their places.  Blank space is before a word if it is before the
brace. -/
structure BlockMarks (opening closing doWord endWord : Located) : Prop where
  isLbrace : opening.token = .lbrace
  isRbrace : closing.token = .rbrace
  isDo : doWord.token = .word "do"
  isEnd : endWord.token = .word "end"
  openingSpaced : doWord.spaced = opening.spaced
  closingSpaced : endWord.spaced = closing.spaced

section Marks

variable {opening closing doWord endWord : Located}
  (hmarks : BlockMarks opening closing doWord endWord)

/-- The inputs part where a block is opened. -/
def BlockMarks.openingFork {rest rest' : List Located} (hne : rest ≠ [])
    (hnext : ∀ next ∈ rest'.head?, next.token.isBehindTarget = false) : Fork where
  kind := .opening
  mark := opening
  rest := rest
  mark' := doWord
  rest' := rest'
  token := hmarks.isLbrace
  token' := hmarks.isDo
  spaced := .inl hmarks.openingSpaced
  rest_ne := fun _ => hne
  noDot := nofun
  noTarget := fun _ next hmem => Token.isBehindTarget_eq_false.1 (hnext next hmem)

/-- The inputs part where a block is closed, and behind it they are the same. -/
def BlockMarks.closingFork {rest : List Located} (hne : rest ≠ [])
    (hnext : ∀ next ∈ rest.head?, next.token.isBehindTarget = false) : Fork where
  kind := .closing
  mark := closing
  rest := rest
  mark' := endWord
  rest' := rest
  token := hmarks.isRbrace
  token' := hmarks.isEnd
  spaced := .inl hmarks.closingSpaced
  rest_ne := fun _ => hne
  noDot := nofun
  noTarget := fun _ next hmem => Token.isBehindTarget_eq_false.1 (hnext next hmem)

end Marks

/-- Behind the name of a call with a block no targets are announced. -/
theorem announcesTargets_call {head opening : Located} {args : List Located}
    (hhead : head.token = .word name)
    (hargs : ∀ first ∈ args.head?, first.token = .lparen ∧ first.spaced = false)
    (hopening : opening.token.isBehindTarget = false) (ahead : List Located) :
    announcesTargets false (head :: (args ++ opening :: ahead)) = false := by
  have hmul : head.token ≠ .op (.binary .mul) := hhead ▸ nofun
  cases args with
  | nil => exact announcesTargets_eq_false hmul (Token.isBehindTarget_eq_false.1 hopening)
  | cons paren args =>
    obtain ⟨hparen, -⟩ := hargs paren rfl
    refine announcesTargets_eq_false hmul (Token.isBehindTarget_eq_false.1 ?_)
    rw [hparen]
    rfl

section Call

variable {read : Reader} {name : String} (hname : name ∉ reservedWords) {s₀ s : State}
  {head opening : Located} {args ahead : List Located} {found : Option (List Node)}
  (hhead : head.token = .word name) (hlocal : Scope.sees name s₀.scopes = false)
  (hrun : (Rule.arguments? read).run (s₀.at (args ++ opening :: ahead)) =
    .ok (found, s.at (opening :: ahead)))
include hname hhead hlocal hrun

/-- A call with its arguments and a block in braces. -/
theorem run_primary_braces (hopening : opening.token = .lbrace)
    (hargs : ∀ first ∈ args.head?, first.token = .lparen ∧ first.spaced = false)
    (hfound : args = [] → found = none) :
    (Rule.primary read).run (s₀.at (head :: (args ++ opening :: ahead))) =
      (Rule.block read ⟨.call none name (found.getD []) false, head.line⟩).run
        (s.at (opening :: ahead)) := by
  rw [run_primary_name hname hhead hlocal (by simp)]
  refine run_call_braces head.line hrun hopening ?_
  cases args with
  | nil => exact .inr (hfound rfl)
  | cons paren args => exact .inl (hargs paren rfl)

/-- A call with its arguments and a block between `do` and `end`. -/
theorem run_primary_words (hopening : opening.token = .word "do") (hclaims : s.claimsDo = 0) :
    (Rule.primary read).run (s₀.at (head :: (args ++ opening :: ahead))) =
      (Rule.block read ⟨.call none name (found.getD []) false, head.line⟩).run
        (s.at (opening :: ahead)) := by
  have hbrace : opening.token ≠ .lbrace := hopening ▸ nofun
  have hdo : (opening.token == .word "do" && s.claimsDo == 0) = true := by
    rw [hopening, hclaims]
    rfl
  rw [run_primary_name hname hhead hlocal (by simp), run_call head.line hrun hbrace, if_pos hdo]

end Call

section Forms

variable {opening closing doWord endWord : Located}
  (hmarks : BlockMarks opening closing doWord endWord) {file name : String}
  (hname : name ∉ reservedWords) {head : Located} (hhead : head.token = .word name)
  {args inner rest : List Located}
  (hargs : ∀ first ∈ args.head?, first.token = .lparen ∧ first.spaced = false)
  (htakes : TakesBlock file head name args (opening :: (inner ++ closing :: rest)) rest)
include hmarks hname hhead hargs htakes

/-- The call is read with the braces as its block.  Unless such a token follows that stands behind a
target, the call is read alike with the words. -/
theorem TakesBlock.run_primary
    (hbound : bound = tokensWeight (head :: (args ++ opening :: (inner ++ closing :: rest))))
    (hne : rest ≠ []) (hrest : ∀ here : Located, here.token = .rbrace → rest ≠ [here]) :
    ∃ (node : Node) (s' : State), node.IsBlock ∧
      (Rule.primary (readAt bound)).run (.start file
        (head :: (args ++ opening :: (inner ++ closing :: rest))) [.empty true] 1) =
          .ok (node, s'.at rest) ∧
      ((∀ next ∈ rest.head?, next.token.isBehindTarget = false) →
        (Rule.primary (readAt bound)).run (.start file
          (head :: (args ++ doWord :: (inner ++ endWord :: rest))) [.empty true] 1) =
            .ok (node, s'.at rest)) := by
  have hlocal := (calm_start file [] 1).locals name
  have hinner : ∀ mark : Located, inner ++ mark :: rest ≠ [] := fun mark =>
    List.append_ne_nil_of_right_ne_nil _ (List.cons_ne_nil _ _)
  obtain ⟨found, node, s, s', hfound, hblock⟩ := htakes
  rw [run_block_braces hmarks.isLbrace (hinner _), ← hbound] at hblock
  rw [← hbound] at hfound
  -- the arguments are read alike, since no block starts with what stands behind a target
  have hnext : ∀ next ∈ (inner ++ endWord :: rest).head?, next.token.isBehindTarget = false := by
    intro next hmem
    cases inner with
    | nil =>
      cases hmem
      rw [hmarks.isEnd]
      rfl
    | cons here inner =>
      cases hmem
      exact isBehindTarget_of_block hblock
  have hopening : (hmarks.openingFork (hinner closing) hnext).kind = .opening := rfl
  obtain ⟨hfound', hclaims, hnone⟩ := Fork.run_arguments_opening hopening hargs
    (s := .start file [] [.empty true] 1) hfound
  refine ⟨node, s', isBlock_of_run hblock, ?_, fun hbehind => ?_⟩
  · refine (run_primary_braces hname hhead hlocal hfound hmarks.isLbrace hargs hnone).trans ?_
    rw [run_block_braces hmarks.isLbrace (hinner _), hblock]
  · have hclosing : (hmarks.closingFork hne hbehind).kind = .closing := rfl
    refine (run_primary_words hname hhead hlocal hfound' hmarks.isDo hclaims).trans ?_
    refine (run_block_words hmarks.isDo (hinner endWord)).trans ?_
    exact Fork.run_block_closing hclosing rfl hrest hblock

end Forms

/-- The arguments, the block and what follows it in a script of two calls: a block with a parameter
that ends in an open range, and a command on the next line. -/
def openRangeTokens : List Located × List Located × List Located :=
  ([⟨.lparen, 1, false⟩, ⟨.int 2, 1, false⟩, ⟨.rparen, 1, false⟩],
    [⟨.op (.binary .bitOr), 1, true⟩, ⟨.word "x", 1, false⟩, ⟨.op (.binary .bitOr), 1, false⟩,
      ⟨.word "x", 1, true⟩, ⟨.op (.range false), 1, false⟩],
    [⟨.newline, 1, false⟩, ⟨.word "puts", 2, false⟩])

end LaneScript
