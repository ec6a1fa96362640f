import LaneScript.Proofs.ForkedConstructs
import LaneScript.Proofs.FrontEndProgress

/-!
# The rules of the grammar on inputs that part at a mark

The rules that end where the next token does not go on with what they read: calls, chains, operators
and statements.  Such a rule looks at the mark and stays there.  Each lemma follows a rule line by
line; `agreesOn_readAt` ties them together, by recursion on the bound.

Behind a name, blank space tells an argument from an operator, and this is the only thing that a
look at the mark may tell from the other mark.  An operator before the mark that becomes an argument
makes the second run fail, but for a `&`, which can stand alone.  Then the first run is at a doomed
place: whatever reads on from there, up to the level of the `&`, stays there, and that level asks
for an operand and fails.
-/

namespace LaneScript

open LaneScript.Parser
open List

variable {here : Located} {ahead : List Located} {token : Token}

/-! ### Arguments -/

/-- Of the next token only the blank space before it counts. -/
theorem Located.startsArgument_congr {here next next' : Located} (h : next.spaced = next'.spaced) :
    here.startsArgument next = here.startsArgument next' := by
  unfold Located.startsArgument
  rw [h]

/-- Blank space behind a token matters only where an operator could be an argument. -/
theorem Located.needsOperand_of_startsArgument {here next next' : Located}
    (h : here.startsArgument next = false) (h' : here.startsArgument next' = true) :
    here.token.needsOperand = true ∨ here.token = .op (.binary .bitAnd) := by
  unfold Located.startsArgument at h h'
  cases htoken : here.token with
  | scope => exact .inl rfl
  | op operator =>
    rw [htoken] at h'
    cases operator with
    | binary op =>
      cases op with
      | sub => exact .inl rfl
      | mul => exact .inl rfl
      | pow => exact .inl rfl
      | bitAnd => exact .inr rfl
      | _ => cases h'
    | bang => exact .inl rfl
    | tilde => exact .inl rfl
    | _ => cases h'
  | _ =>
    rw [htoken] at h h'
    exact absurd (h.symm.trans h') Bool.false_ne_true

/-- What starts an argument before blank space does so without it. -/
theorem Located.startsArgument_of_spaced {here next next' : Located}
    (hspaced : next'.spaced = false) (h : here.startsArgument next = true) :
    here.startsArgument next' = true := by
  cases hnext : next.spaced with
  | false => rw [← Located.startsArgument_congr (hnext.trans hspaced.symm), h]
  | true =>
    unfold Located.startsArgument at h ⊢
    split <;> simp_all

theorem looks_startsArgument :
    Looks Rule.startsArgument fun s => s.cursor.current.startsArgument (s.cursor.peek 1) :=
  fun _ => rfl

/-! ### Chains -/

section Chains

variable {read : Reader}

/-- A call on the next line goes on with a chain. -/
def Cursor.dotAhead (cursor : Cursor) : Bool :=
  (cursor.skip (· == .newline)).current.token == .dot ||
    (cursor.skip (· == .newline)).current.token == .safeDot

/-- What is chained to a value at the current token. -/
def chainHere (read : Reader) (node : Node) : Parser Node := do
  let here ← current
  match here.token with
  | .dot => read (.chain (← Rule.callOn read node false))
  | .safeDot => read (.chain (← Rule.callOn read node true))
  | .scope => read (.chain (← Rule.lookedUp read node))
  | .lbracket => if here.spaced then return node else read (.chain (← Rule.indexed read node))
  | _ => return node

/-- A dot on a later line goes on with the chain. -/
theorem run_chain_of_dot {s : State} (h : s.cursor.dotAhead = true) (node : Node) :
    (Rule.chain read node).run s =
      (chainHere read node).run { s with cursor := s.cursor.skip (· == .newline) } := by
  rw [Rule.chain, run_get_bind]
  exact congrArg (fun p : Parser Node => p.run s) (if_pos h)

/-- Without one, line ends are not passed. -/
theorem run_chain_of_not_dot {s : State} (h : s.cursor.dotAhead = false) (node : Node) :
    (Rule.chain read node).run s = (chainHere read node).run s := by
  rw [Rule.chain, run_get_bind]
  exact congrArg (fun p : Parser Node => p.run s) (if_neg (Bool.eq_false_iff.1 h))

/-- Nothing is chained to a value before any other token. -/
theorem chainHere_of_stays (hdot : here.token ≠ .dot) (hsafe : here.token ≠ .safeDot)
    (hscope : here.token ≠ .scope) (hbracket : here.token ≠ .lbracket) (node : Node) (s : State) :
    (chainHere read node).run (s.at (here :: ahead)) = .ok (node, s.at (here :: ahead)) := by
  rw [chainHere, run_current_bind]
  split
  next h => exact absurd h hdot
  next h => exact absurd h hsafe
  next h => exact absurd h hscope
  next h => exact absurd h hbracket
  · rfl

end Chains

/-! ### A minus and its number -/

section Minus

variable {read : Reader}

/-- The literal that a minus and the number behind it are, if a number is there and no power behind
it. -/
def Cursor.negated? (cursor : Cursor) : Option Form :=
  if (cursor.peek 1).spaced || (cursor.peek 2).token == .op (.binary .pow) then none
  else (cursor.peek 1).token.negated?

/-- What follows a minus. -/
def behindMinus (read : Reader) (line : Nat) : Option Form → Parser Node
  | some form => do
    advance
    Rule.power read (← read (.chain ⟨form, line⟩))
  | none => do return ⟨.unary .minus (← nested (read .signed)), line⟩

/-- A minus is taken, and the number behind it with it if there is one. -/
theorem run_signed_of_minus (hhere : here.token = .op (.binary .sub)) (hne : ahead ≠ [])
    (s : State) :
    (Rule.signed read).run (s.at (here :: ahead)) =
      (behindMinus read here.line (Cursor.negated? ⟨here, ahead⟩)).run (s.at ahead) := by
  have hminus : ¬ (here.token != .op (.binary .sub)) = true := by
    rw [hhere]
    decide
  rw [Rule.signed, run_current_bind, if_neg hminus, run_peek_bind, run_peek_bind]
  show Parser.run (advance >>= _) (s.at (here :: ahead)) = _
  rw [run_advance_bind hne]
  -- whether a number is behind it is the same question on both sides
  split
  next form hform =>
    have hnegated : Cursor.negated? ⟨here, ahead⟩ = some form := hform
    rw [hnegated]
    rfl
  next hform =>
    have hnegated : Cursor.negated? ⟨here, ahead⟩ = none := hform
    rw [hnegated]
    rfl

/-- Without a minus there is an operand, and a power of it. -/
theorem run_signed_of_ne (hhere : here.token ≠ .op (.binary .sub)) (s : State) :
    (Rule.signed read).run (s.at (here :: ahead)) =
      (Rule.unary read >>= Rule.power read).run (s.at (here :: ahead)) := by
  rw [Rule.signed, run_current_bind, if_pos (bne_iff_ne.2 hhere)]

/-- A mark is no number, and no power. -/
theorem Fork.negated?_eq {fork : Fork} (here : Located) (y : List Located) :
    Cursor.negated? ⟨here, fork.first y⟩ = Cursor.negated? ⟨here, fork.second y⟩ ∧
      (y = [] → Cursor.negated? ⟨here, fork.first y⟩ = none) := by
  have hnone : ∀ (mark : Located) (ahead : List Located), mark.token.isMark = true →
      Cursor.negated? ⟨here, mark :: ahead⟩ = none := by
    intro mark ahead hmark
    have hnegated : mark.token.negated? = none := by
      cases htoken : mark.token with
      | int value => rw [htoken] at hmark; cases hmark
      | float value => rw [htoken] at hmark; cases hmark
      | _ => rfl
    show (if _ then none else mark.token.negated?) = none
    rw [hnegated]
    exact ite_self _
  -- the number behind the sign is looked at, and the token behind the number
  cases y with
  | nil =>
    have hmark := hnone fork.mark fork.rest Fork.isMark_mark
    exact ⟨hmark.trans (hnone fork.mark' fork.rest' Fork.isMark_mark').symm, fun _ => hmark⟩
  | cons number y =>
    refine ⟨?_, nofun⟩
    cases y with
    | nil =>
      show (if (number.spaced || fork.mark.token == .op (.binary .pow)) = true then none
          else number.token.negated?) =
        (if (number.spaced || fork.mark'.token == .op (.binary .pow)) = true then none
          else number.token.negated?)
      rw [mark_beq rfl, mark'_beq rfl]
    | cons behind y => rfl

end Minus

/-! ### The operators that stand at a place -/

/-- The operator of the level that a token is; a `|` may close a list of parameters instead. -/
def Token.joining? (level : List BinaryOp) (pipeCloses : Bool) : Token → Option BinaryOp
  | .op (.binary joined) =>
    if level.contains joined && !(joined == .bitOr && pipeCloses) then some joined else none
  | _ => none

/-- The operator of a level is found by a look at the current token. -/
theorem looks_joining? (level : List BinaryOp) :
    Looks (Rule.joining? level) fun s => s.cursor.current.token.joining? level s.pipeCloses := by
  intro s
  rw [Rule.joining?, looks_current.run_bind]
  show _ = Except.ok (s.cursor.current.token.joining? level s.pipeCloses, s)
  cases s.cursor.current.token with
  | op operator =>
    cases operator with
    | binary op =>
      rw [Token.joining?]
      -- a bar is asked for the rest of the state
      show Parser.run (get >>= _) s = _
      rw [run_get_bind]
      split <;> rfl
    | _ => rfl
  | _ => rfl

/-- No operator is a mark. -/
theorem Token.joining?_of_isMark (h : token.isMark = true) (level : List BinaryOp)
    (pipeCloses : Bool) : token.joining? level pipeCloses = none := by
  cases token with
  | op operator => cases h
  | _ => rfl

/-- What the operator that stands here assigns. -/
def Token.assignment? : Token → Option (Node → Node → Form)
  | .op operator => operator.assignment?
  | _ => none

theorem looks_assigning? : Looks Rule.assigning? fun s => s.cursor.current.token.assignment? := by
  intro s
  rw [Rule.assigning?, looks_current.run_bind]
  show _ = Except.ok (s.cursor.current.token.assignment?, s)
  cases s.cursor.current.token <;> rfl

/-! ### Targets before a mark -/

/-- No mark is a target. -/
theorem Token.isTarget_of_isMark (h : token.isMark = true) : token.isTarget = false := by
  cases token with
  | word text =>
    rcases Bool.or_eq_true_iff.1 h with h | h <;> rw [beq_iff_eq.1 h] <;> rfl
  | var sigil name => cases h
  | _ => rfl

/-- Where no target stands, none are announced. -/
theorem announcesTargets_of_not_target (hmul : here.token ≠ .op (.binary .mul))
    (htarget : here.token.isTarget = false) (several : Bool) :
    announcesTargets several (here :: ahead) = false := by
  -- the four shapes start with a star or with a target
  unfold announcesTargets
  split
  next heq => obtain ⟨rfl, -⟩ := List.cons.inj heq; exact absurd rfl hmul
  next heq => obtain ⟨rfl, -⟩ := List.cons.inj heq; exact absurd rfl hmul
  next heq =>
    obtain ⟨rfl, -⟩ := List.cons.inj heq
    rw [htarget]
    rfl
  next heq =>
    obtain ⟨rfl, -⟩ := List.cons.inj heq
    rw [htarget]
    rfl
  · rfl

/-- Nor does one announce targets. -/
theorem announcesTargets_mark {mark : Located} (h : mark.token.isMark = true) (several : Bool)
    (ahead : List Located) : announcesTargets several (mark :: ahead) = false := by
  refine announcesTargets_of_not_target (fun hmul => ?_) (Token.isTarget_of_isMark h) several
  rw [hmul] at h
  cases h

/-- Of the first tokens of some tokens before a mark, the second may be the mark. -/
theorem eq_mark_or_of_append_cons {x others ahead : List Located} {mark first second : Located}
    (hx : x ≠ []) (h : x ++ mark :: ahead = first :: second :: others) :
    mark = second ∨ ∃ y, x = first :: second :: y := by
  rcases x with _ | ⟨a, _ | ⟨b, y⟩⟩
  · exact absurd rfl hx
  · simp only [cons_append, nil_append, List.cons.injEq] at h
    exact .inl h.2.1
  · simp only [cons_append, List.cons.injEq] at h
    exact .inr ⟨y, by rw [h.1, h.2.1]⟩

/-- So may the third. -/
theorem eq_mark_or_of_append_cons_cons {x others ahead : List Located}
    {mark first second third : Located} (hx : x ≠ [])
    (h : x ++ mark :: ahead = first :: second :: third :: others) :
    mark = second ∧ third ∈ ahead.head? ∨ mark = third ∨
      ∃ y, x = first :: second :: third :: y := by
  rcases x with _ | ⟨a, _ | ⟨b, _ | ⟨c, y⟩⟩⟩
  · exact absurd rfl hx
  · simp only [cons_append, nil_append, List.cons.injEq] at h
    obtain ⟨-, hmark, rfl⟩ := h
    exact .inl ⟨hmark, rfl⟩
  · simp only [cons_append, nil_append, List.cons.injEq] at h
    exact .inr (.inl h.2.2.1)
  · simp only [cons_append, List.cons.injEq] at h
    exact .inr (.inr ⟨y, by rw [h.1, h.2.1, h.2.2.1]⟩)

/-- Tokens that announce no targets by themselves announce none before a mark. -/
theorem announcesTargets_append_mark {x : List Located} (hx : x ≠ []) {mark : Located}
    (hmark : mark.token.isMark = true) (hword : ∀ text, mark.token = .word text →
      ∀ next ∈ ahead.head?, next.token ≠ .comma ∧ next.token ≠ .op .assign)
    (hsplat : ∀ line spaced text line' spaced' line'' spaced'' others,
      x = ⟨.op (.binary .mul), line, spaced⟩ :: ⟨.word text, line', spaced'⟩ ::
        ⟨.comma, line'', spaced''⟩ :: others → False)
    (hlast : ∀ line spaced text line' spaced' line'' spaced'' others,
      x = ⟨.op (.binary .mul), line, spaced⟩ :: ⟨.word text, line', spaced'⟩ ::
        ⟨.op .assign, line'', spaced''⟩ :: others → False)
    (htargets : ∀ target line spaced others, x = target :: ⟨.comma, line, spaced⟩ :: others → False)
    (hassign : ∀ target line spaced others,
      x = target :: ⟨.op .assign, line, spaced⟩ :: others → False) (several : Bool) :
    announcesTargets several (x ++ mark :: ahead) = false := by
  -- none of the four shapes that announce targets reaches from `x` into the mark
  refine announcesTargets.eq_5 _ _ ?_ ?_ ?_ ?_
  · intro line spaced text line' spaced' line'' spaced'' others heq
    rcases eq_mark_or_of_append_cons_cons hx heq with ⟨rfl, hthird⟩ | rfl | ⟨y, hy⟩
    · exact (hword text rfl _ hthird).1 rfl
    · cases hmark
    · exact hsplat _ _ _ _ _ _ _ _ hy
  · intro line spaced text line' spaced' line'' spaced'' others heq
    rcases eq_mark_or_of_append_cons_cons hx heq with ⟨rfl, hthird⟩ | rfl | ⟨y, hy⟩
    · exact (hword text rfl _ hthird).2 rfl
    · cases hmark
    · exact hlast _ _ _ _ _ _ _ _ hy
  · intro target line spaced others heq
    rcases eq_mark_or_of_append_cons hx heq with rfl | ⟨y, hy⟩
    · cases hmark
    · exact htargets _ _ _ _ hy
  · intro target line spaced others heq
    rcases eq_mark_or_of_append_cons hx heq with rfl | ⟨y, hy⟩
    · cases hmark
    · exact hassign _ _ _ _ hy

/-- The marks are no targets, and no target is behind a splat before a mark. -/
theorem Fork.announcesTargets_eq (fork : Fork) (several : Bool) (x : List Located) :
    announcesTargets several (fork.first x) = announcesTargets several (fork.second x) := by
  fun_induction announcesTargets several x with
  | case1 several line spaced text line' spaced' line'' spaced'' others ih => exact ih
  | case2 several line spaced text line' spaced' line'' spaced'' others => rfl
  | case3 several target line spaced others ih =>
    rw [first_cons, first_cons, second_cons, second_cons, announcesTargets.eq_3,
      announcesTargets.eq_3, ih]
  | case4 several target line spaced others =>
    rw [first_cons, first_cons, second_cons, second_cons, announcesTargets.eq_4,
      announcesTargets.eq_4]
  | case5 x several hsplat hlast htargets hassign =>
    -- `x` announces none by itself, so the targets would reach into the mark
    by_cases hx : x = []
    · subst hx
      exact (announcesTargets_mark isMark_mark several _).trans
        (announcesTargets_mark isMark_mark' several _).symm
    · have hmark : ∀ text, fork.mark.token ≠ .word text := by
        intro text
        rw [fork.token]
        cases fork.kind <;> exact Token.noConfusion
      have hline : ∀ text, fork.mark'.token = .word text → fork.kind ≠ .line := by
        intro text hword hkind
        rw [fork.token', hkind] at hword
        cases hword
      have hfirst : announcesTargets several (fork.first x) = false :=
        announcesTargets_append_mark hx isMark_mark
          (fun text hword => absurd hword (hmark text)) hsplat hlast htargets hassign several
      have hsecond : announcesTargets several (fork.second x) = false :=
        announcesTargets_append_mark hx isMark_mark'
          (fun text hword => fork.noTarget (hline text hword)) hsplat hlast htargets hassign several
      exact hfirst.trans hsecond.symm

/-- Words that end a body are no targets, nor is anything else that is barren. -/
theorem Token.isTarget_of_isBarren (h : token.isBarren = true) : token.isTarget = false := by
  cases token with
  | word text =>
    have hwords : ∀ word ∈ Rule.clauseWords, word ∈ stopWords := by decide
    have hmem : text ∈ stopWords := hwords text (contains_iff_mem.1 h)
    show (!stopWords.contains text) = false
    rw [contains_iff_mem.2 hmem]
    rfl
  | var sigil name => cases h
  | _ => rfl

/-- Without targets, a statement is a condition with its modifiers. -/
theorem run_statement {read : Reader} {s : State}
    (h : announcesTargets false s.cursor.tokens = false) :
    (Rule.statement read).run s =
      (Rule.condition read >>= fun node => read (.modifiers node)).run s := by
  rw [Rule.statement, run_get_bind]
  exact congrArg (fun p : Parser Node => p.run s) (if_neg (Bool.eq_false_iff.1 h))

/-- No statement starts at a barren token. -/
theorem failsOn_statement {read : Reader} (h : here.token.isBarren = true) :
    FailsOn (here :: ahead) (Rule.statement read) := by
  intro s
  have hnone : announcesTargets false (s.at (here :: ahead)).cursor.tokens = false :=
    announcesTargets_of_not_target (Token.ne_of_isBarren h rfl) (Token.isTarget_of_isBarren h) false
  rw [run_statement hnone]
  exact (failsOn_condition h).bind _ s

section Rules

variable {fork : Fork} {read : Reader} (hread : AgreesOn fork read) (hstarves : Starves read)
include hread hstarves

omit hread hstarves in
/-- No argument starts at the marks. -/
theorem Fork.startsArgument_marks (hleast : fork.least = 0) (next : Located) :
    fork.mark.startsArgument next = false ∧ fork.mark'.startsArgument next = false := by
  unfold Located.startsArgument
  rcases Fork.marks hleast with ⟨hmark, hmark'⟩ | ⟨hmark, hmark'⟩
  · rw [hmark, hmark']
    exact ⟨rfl, rfl⟩
  · rw [hmark, hmark']
    refine ⟨rfl, ?_⟩
    show (fork.mark'.spaced && false) = false
    exact Bool.and_false _

omit hread hstarves in
/-- The two runs part at an operator before the marks, if blank space is before one of them only.
Then the second run fails, or the first one is at a doomed place. -/
theorem Fork.same_of_startsArgument {α : Type} {a : α} {p : Parser α} {s s' : State}
    {x' : List Located} (h : here.startsArgument fork.mark = false)
    (h' : here.startsArgument fork.mark' = true)
    (hfails : ∀ next ahead, here.token.needsOperand = true → next.token.isBarren = true →
      FailsOn (here :: next :: ahead) p)
    (hrun : (pure a : Parser α).run (s.at (fork.first [here])) = .ok (a, s'.at (fork.first x'))) :
    fork.Doomed x' ∨ fork.Same a s' x' (p.run (s.at (fork.second [here]))) := by
  have hdiffers : fork.Differs := by
    intro hspaced
    rw [Located.startsArgument_congr hspaced, h] at h'
    cases h'
  -- the marks are told apart by blank space only where they end a line
  have hbarren : fork.mark'.token.isBarren = true := by
    rw [fork.token', hdiffers.kind_eq]
    rfl
  rcases Located.needsOperand_of_startsArgument h h' with hneeds | hand
  · exact .inr (.inr ⟨hdiffers, hfails _ _ hneeds hbarren s⟩)
  · obtain ⟨rfl, -⟩ := Fork.at_eq (Prod.mk.inj (Except.ok.inj hrun)).2
    exact .inl ⟨hdiffers, here, rfl, hand⟩

omit hread hstarves in
/-- What starts with an argument, or returns at once. -/
theorem agrees_startsArgument_ite {α : Type} {p : Parser α} {a : α}
    (hp : Concurs fork fork.least true p)
    (hfails : ∀ here next : Located, ∀ ahead, here.token.needsOperand = true →
      next.token.isBarren = true → FailsOn (here :: next :: ahead) p) :
    Agrees fork fork.least true
      (Rule.startsArgument >>= fun starts => if starts = true then p else pure a) := by
  have hboth : ∀ starts, Concurs fork fork.least true
      (if starts = true then p else pure a) := by
    intro starts
    split
    · exact hp
    · exact concurs_pure a
  refine ⟨⟨looks_startsArgument.forward_bind fun starts => (hboth starts).forward, ?_⟩, ?_⟩
  · intro s x b s' x' hx hrun hlength
    obtain ⟨here, y, rfl⟩ := exists_cons_of_ne_nil hx
    rw [looks_startsArgument.run_bind] at hrun ⊢
    -- a look ahead sees the mark only from the token before it
    cases y with
    | cons next y => exact (hboth _).same s (here :: next :: y) b s' x' hx hrun hlength
    | nil =>
      replace hrun : (if here.startsArgument fork.mark = true then p else pure a).run
        (s.at (fork.first [here])) = .ok (b, s'.at (fork.first x')) := hrun
      show _ ∨ fork.Same b s' x' ((if here.startsArgument fork.mark' = true then p else pure a).run
        (s.at (fork.second [here])))
      by_cases heq : here.startsArgument fork.mark = here.startsArgument fork.mark'
      · rw [← heq]
        exact (hboth _).same s [here] b s' x' hx hrun hlength
      · cases h : here.startsArgument fork.mark with
        | true =>
          -- the marks differ, so blank space is before the first one and not before the second
          rcases fork.spaced with hspaced | ⟨-, -, hspaced⟩
          · exact absurd (Located.startsArgument_congr hspaced.symm) heq
          · exact absurd (h.trans (Located.startsArgument_of_spaced hspaced h).symm) heq
        | false =>
          -- an operator on the first input, and an argument without an operand on the second
          have h' : here.startsArgument fork.mark' = true := by
            rw [h] at heq
            exact (Bool.eq_true_of_not_eq_false fun hfalse => heq hfalse.symm)
          rw [h, if_neg Bool.false_ne_true] at hrun
          rw [h', if_pos rfl]
          obtain rfl : a = b := (Prod.mk.inj (Except.ok.inj hrun)).1
          have hsame := Fork.same_of_startsArgument h h' (hfails here) hrun
          exact hsame.imp_left fun hdoomed => ⟨rfl, hdoomed⟩
  · intro hleast
    refine looks_startsArgument.atMark (fun s => (Fork.startsArgument_marks hleast _).1)
      (fun s => (Fork.startsArgument_marks hleast _).2) ?_
    exact atMark_pure a

/-- In parentheses the arguments end at a bracket.  Without them blank space decides whether there
are any, which is where the runs may part. -/
theorem agrees_arguments? : Agrees fork fork.least true (Rule.arguments? read) := by
  have hcommand : Leaves fork fork.least false (do return some (← Rule.commandArguments read)) :=
    (leaves_commandArguments hread).bind fun _ => agrees_pure _
  have hitems : Leaves fork fork.least false (Rule.items read .rparen ")") :=
    leaves_items hread (by nofun) _ _
  refine agrees_isAtCallParen_ite ?_ ?_
  · exact concurs_advance_bind (hitems.bind fun found => agrees_pure _).agrees.loosen
  · refine agrees_startsArgument_ite hcommand.toConcurs.loosen ?_
    intro here next ahead hhere hnext
    exact ((hstarves.operand here next ahead hhere hnext).bind _).leavingDo.bind _

/-! ### Calls and chains -/

/-- The block behind a call, if there is one. -/
def optionalBlock (read : Reader) (takesBraces : Bool) (found : Node) : Parser Node := do
  let brace ← isAt .lbrace
  let keyword ← isAt (.word "do")
  if (brace && takesBraces) || (keyword && (← get).claimsDo == 0) then Rule.block read found
  else return found

omit hstarves in
/-- No block starts at a mark that is no opening one. -/
theorem agrees_optionalBlock (takesBraces : Bool) (found : Node) :
    Agrees fork fork.least true (optionalBlock read takesBraces found) := by
  refine ⟨?_, fun hleast => ?_⟩
  · refine concurs_isAt_bind _ fun brace => concurs_isAt_bind _ fun keyword => ?_
    refine concurs_get_bind (fun _ _ => rfl) fun s => ?_
    split
    · exact (concurs_block hread found).loosen
    · exact concurs_pure _
  -- a mark that nothing may start at is no brace and no `do`
  · have hmarks : ∀ token : Token, token = .lbrace ∨ token = .word "do" →
        fork.mark.token ≠ token ∧ fork.mark'.token ≠ token := by
      rcases Fork.marks hleast with ⟨hmark, hmark'⟩ | ⟨hmark, hmark'⟩ <;>
        rw [hmark, hmark'] <;> rintro token (rfl | rfl) <;> decide
    refine .isAt (hmarks _ (.inl rfl)).1 (hmarks _ (.inl rfl)).2 ?_
    refine .isAt (hmarks _ (.inr rfl)).1 (hmarks _ (.inr rfl)).2 ?_
    exact .get (fun _ _ => rfl) (fun _ _ => rfl) fun _ => atMark_pure _

omit hread hstarves in
/-- A `&` at a doomed place starts no block. -/
theorem absorbs_optionalBlock (takesBraces : Bool) (found : Node) :
    Absorbs fork true (optionalBlock read takesBraces found) := by
  refine absorbs_isAt_bind nofun (absorbs_isAt_bind nofun ?_)
  exact fun here s b s' x' hdoomed hrun => absorbs_pure found here s b s' x' hdoomed hrun

/-- The arguments may have come to a doomed place; the block behind them stays there. -/
theorem agrees_call (receiver : Option Node) (name : String) (safe : Bool) (line : Nat) :
    Agrees fork fork.least true (Rule.call read receiver name safe line) := by
  have hbody : ∀ paren : Bool, Agrees fork fork.least true (do
      let args := (← Rule.arguments? read).getD []
      optionalBlock read (paren || args.isEmpty) ⟨.call receiver name args safe, line⟩) :=
    fun paren => (agrees_arguments? hread hstarves).bind_loose
      (fun _ => agrees_optionalBlock hread _ _) fun _ _ => absorbs_optionalBlock _ _
  exact ⟨concurs_isAtCallParen_bind fun paren => (hbody paren).toConcurs,
    fun hk => .isAtCallParen ((hbody false).atMark hk)⟩

omit hread hstarves in
/-- No method has the name of a mark. -/
theorem Fork.failsOn_methodName (hleast : fork.least = 0) :
    FailsOn (fork.first []) Rule.methodName := by
  intro s
  rw [Rule.methodName, Fork.first, nil_append, run_current_bind]
  rcases Fork.marks hleast with ⟨hmark, -⟩ | ⟨hmark, -⟩ <;> rw [hmark] <;> exact ⟨_, rfl⟩

omit hread hstarves in
theorem leaves_methodName : Leaves fork fork.least false Rule.methodName := by
  refine ⟨concurs_current_bind fun here => ?_, fun hk => (Fork.failsOn_methodName hk).clears⟩
  split
  · exact concurs_advance_bind (agrees_pure _)
  · exact concurs_advance_bind (agrees_pure _)
  · exact concurs_pure _
  · exact (leaves_expected _).toConcurs

/-- The dot is before the mark, and the name behind it too. -/
theorem concurs_callOn (receiver : Node) (safe : Bool) :
    Concurs fork fork.least true (Rule.callOn read receiver safe) := by
  refine concurs_advance_bind (Leaves.agrees ?_)
  refine concurs_skipNewlines.bind_leaves fun _ => leaves_line_bind fun line => ?_
  exact leaves_methodName.bind fun name => agrees_call hread hstarves _ _ _ _

/-- Behind a `::` a look at the next token tells a constant from a call. -/
theorem concurs_lookedUp (scope : Node) :
    Concurs fork fork.least true (Rule.lookedUp read scope) := by
  refine concurs_advance_bind (Leaves.agrees ⟨?_, fun hk => FailsOn.clears fun s => ?_⟩)
  · refine concurs_current_bind fun here => ?_
    refine (looks_peek 1).bind (fun s x hx => ?_) fun behind => ?_
    · obtain ⟨first, y, rfl⟩ := exists_cons_of_ne_nil hx
      cases y with
      | nil =>
        -- no mark is a parenthesis, so that its blank space is not asked for
        have hpeek : (s.at (fork.first [first])).cursor.peek 1 = fork.mark := rfl
        have hpeek' : (s.at (fork.second [first])).cursor.peek 1 = fork.mark' := rfl
        rw [hpeek, hpeek', Fork.mark_beq rfl, Fork.mark'_beq rfl]
        rfl
      | cons next y => rfl
    · split
      · refine concurs_advance_bind ?_
        split
        · exact agrees_call hread hstarves _ _ _ _
        · exact agrees_pure _
      · exact concurs_advance_bind (agrees_call hread hstarves _ _ _ _)
      · exact (leaves_expected _).toConcurs
  · rw [Fork.first, nil_append, run_current_bind, run_peek_bind]
    rcases Fork.marks hk with ⟨hmark, -⟩ | ⟨hmark, -⟩ <;> rw [hmark] <;> exact ⟨_, rfl⟩

omit hstarves in
theorem concurs_indexed (receiver : Node) :
    Concurs fork fork.least false (Rule.indexed read receiver) := by
  have hitems : Leaves fork fork.least false (Rule.items read .rbracket "]") :=
    leaves_items hread (by nofun) _ _
  refine concurs_line_bind fun line => concurs_advance_bind (Leaves.agrees ?_)
  exact hitems.bind fun found => agrees_pure _

/-- What is chained goes on from a doomed place only to stay there. -/
theorem agrees_chainHere (node : Node) : Agrees fork fork.least true (chainHere read node) := by
  refine ⟨concurs_current_bind fun here => ?_, fun hleast s a s' hrun => ?_⟩
  -- a link is taken before the mark, and then the chain goes on
  · have hchained : ∀ {p : Parser Node}, Concurs fork fork.least true p →
        Concurs fork fork.least true (p >>= fun found => read (.chain found)) :=
      fun hp => hp.bind_loose hread.chain fun _ => hread.chainAbsorbs
    split
    · exact hchained (concurs_callOn hread hstarves _ _)
    · exact hchained (concurs_callOn hread hstarves _ _)
    · exact hchained (concurs_lookedUp hread hstarves _)
    · split
      · exact concurs_pure _
      · exact hchained (concurs_indexed hread _).loosen
    · exact concurs_pure _
  · rw [Fork.first, nil_append, chainHere_of_stays (Fork.mark_ne rfl) (Fork.mark_ne rfl)
      (Fork.mark_ne rfl) (Fork.mark_ne rfl)] at hrun
    rw [Fork.second, nil_append, chainHere_of_stays (Fork.mark'_ne rfl) (Fork.mark'_ne rfl)
      (Fork.mark'_ne rfl) (Fork.mark'_ne rfl)]
    exact .of_still (x := []) hrun

omit hread hstarves in
/-- Both inputs go on with a chain on the next line or none, and the place of the dot is before the
marks. -/
theorem Fork.dotAhead_eq (x : List Located) :
    (∃ y, y ≠ [] ∧
      (Cursor.ofTokens (fork.first x)).skip (· == .newline) = .ofTokens (fork.first y) ∧
      (Cursor.ofTokens (fork.second x)).skip (· == .newline) = .ofTokens (fork.second y)) ∨
    (Cursor.ofTokens (fork.first x)).dotAhead = false ∧
      (Cursor.ofTokens (fork.second x)).dotAhead = false := by
  have hstop : ∀ (here : Located) (ahead : List Located), here.token ≠ .newline →
      Cursor.skip (· == .newline) ⟨here, ahead⟩ = ⟨here, ahead⟩ :=
    fun _ _ hhere => Cursor.skip_of_false (beq_eq_false_iff_ne.2 hhere)
  induction x with
  | nil =>
    refine .inr ⟨?_, ?_⟩
    · have hmark : fork.mark.token ≠ .newline := by
        rw [fork.token]
        cases fork.kind <;> exact Token.noConfusion
      show (Cursor.mk fork.mark fork.rest).dotAhead = false
      rw [Cursor.dotAhead, hstop _ _ hmark]
      exact Bool.or_eq_false_iff.2 ⟨Fork.mark_beq rfl, Fork.mark_beq rfl⟩
    · show (Cursor.mk fork.mark' fork.rest').dotAhead = false
      -- only a line end lets the look go on behind the mark
      by_cases hkind : fork.kind = .line
      · obtain ⟨hdot, hsafe⟩ := fork.noDot hkind
        exact Bool.or_eq_false_iff.2 ⟨beq_eq_false_iff_ne.2 hdot, beq_eq_false_iff_ne.2 hsafe⟩
      · have hmark' : fork.mark'.token ≠ .newline := by
          rw [fork.token']
          cases hfork : fork.kind with
          | line => exact absurd hfork hkind
          | closing => nofun
          | opening => nofun
        rw [Cursor.dotAhead, hstop _ _ hmark']
        exact Bool.or_eq_false_iff.2 ⟨Fork.mark'_beq rfl, Fork.mark'_beq rfl⟩
  | cons here y ih =>
    rw [Fork.first_cons, Fork.second_cons, Cursor.ofTokens_cons, Cursor.ofTokens_cons]
    by_cases hhere : here.token = .newline
    · have hskipped : (here.token == .newline) = true := beq_iff_eq.2 hhere
      rw [Cursor.dotAhead, Cursor.dotAhead, Cursor.skip_cons hskipped (Fork.first_ne_nil _),
        Cursor.skip_cons hskipped (Fork.second_ne_nil _)]
      exact ih
    · exact .inl ⟨here :: y, cons_ne_nil _ _, hstop _ _ hhere, hstop _ _ hhere⟩

/-- Behind a value a chain goes on over line ends only to a dot, which comes before the marks or not
at all. -/
theorem agrees_chain (node : Node) : Agrees fork fork.least true (Rule.chain read node) := by
  have hhere := agrees_chainHere hread hstarves node
  refine .of_same ?_ ?_
  · intro s a s' hrun
    cases hdot : s.cursor.dotAhead with
    | true =>
      rw [run_chain_of_dot hdot] at hrun
      exact (hhere.forward _ a s' hrun).trans (s.cursor.tokens_skip _)
    | false =>
      rw [run_chain_of_not_dot hdot] at hrun
      exact hhere.forward s a s' hrun
  · intro s x a s' x' hrun hlength
    rcases Fork.dotAhead_eq x with ⟨y, hy, hskip, hskip'⟩ | ⟨hdot, hdot'⟩
    · -- the token that comes behind the line ends is the same on both inputs
      obtain ⟨there, y, rfl⟩ := exists_cons_of_ne_nil hy
      have heq : (Cursor.ofTokens (fork.first x)).dotAhead =
          (Cursor.ofTokens (fork.second x)).dotAhead := by
        rw [Cursor.dotAhead, Cursor.dotAhead, hskip, hskip']
        rfl
      cases hdot : (Cursor.ofTokens (fork.first x)).dotAhead with
      | true =>
        rw [run_chain_of_dot hdot, State.cursor_at, hskip] at hrun
        rw [run_chain_of_dot (heq ▸ hdot), State.cursor_at, hskip']
        exact hhere.same_of_run (s := s) hrun hlength
      | false =>
        rw [run_chain_of_not_dot hdot] at hrun
        rw [run_chain_of_not_dot (heq ▸ hdot)]
        exact hhere.same_of_run hrun hlength
    · rw [run_chain_of_not_dot hdot] at hrun
      rw [run_chain_of_not_dot hdot']
      exact hhere.same_of_run hrun hlength

omit hread hstarves in
/-- No chain goes on with a `&`. -/
theorem absorbs_chain (node : Node) : Absorbs fork true (Rule.chain read node) := by
  intro here s a s' x' hdoomed hrun
  obtain ⟨-, there, hthere, hhere⟩ := id hdoomed
  obtain rfl := singleton_inj.1 hthere
  have hne : ∀ token : Token, token ≠ .op (.binary .bitAnd) → here.token ≠ token :=
    fun token htoken => hhere ▸ htoken.symm
  have hskip : Cursor.skip (· == .newline) ⟨here, fork.first []⟩ = ⟨here, fork.first []⟩ :=
    Cursor.skip_of_false (beq_eq_false_iff_ne.2 (hne _ nofun))
  -- behind the `&` no dot is looked for on the next line
  have hdot : (Cursor.mk here (fork.first [])).dotAhead = false := by
    rw [Cursor.dotAhead, hskip]
    exact Bool.or_eq_false_iff.2 ⟨beq_eq_false_iff_ne.2 (hne _ nofun),
      beq_eq_false_iff_ne.2 (hne _ nofun)⟩
  rw [Fork.first_cons, run_chain_of_not_dot hdot, chainHere_of_stays (hne _ nofun) (hne _ nofun)
    (hne _ nofun) (hne _ nofun)] at hrun
  exact absorbs_pure node here s a s' x' hdoomed hrun

/-! ### Primary expressions -/

omit hstarves in
/-- A construct takes its last word, so no run stays at the mark. -/
theorem leaves_construct? {line : Nat} {word : String} {construct : Parser Node}
    (h : Rule.construct? read line word = some construct) :
    Leaves fork fork.least false construct := by
  unfold Rule.construct? at h
  split at h
  · cases h
    exact leaves_conditional hread line
  · cases h
    exact leaves_unlessThen hread line
  · cases h
    exact leaves_loop hread false line
  · cases h
    exact leaves_loop hread true line
  · cases h
    exact leaves_forEach hread line
  · cases h
    exact leaves_caseOf hread line
  · cases h
    exact (leaves_clauses hread).bind fun _ => agrees_pure _
  · cases h
    exact leaves_method hread line
  · cases h
    exact leaves_classDef hread line
  · cases h
    exact leaves_moduleDef hread line
  · cases h

omit hstarves in
theorem leaves_definedForm : Leaves fork fork.least false (Rule.definedForm read) := by
  have hclosed : ∀ operand, Leaves fork fork.least false (do
      expect .rparen ")"
      return Form.defined operand) :=
    fun _ => leaves_expect_bind _ nofun (agrees_pure _)
  refine leaves_eat_bind nofun (Leaves.agrees ?_) ?_
  · exact hread.expression.bind fun operand => (hclosed operand).agrees
  · exact hread.expression.bind fun operand => agrees_pure _

/-- A word is a literal, a construct, a jump, a variable or a call, in this order. -/
theorem concurs_word (text : String) (line : Nat) :
    Concurs fork fork.least true (Rule.word read text line) := by
  have harguments := agrees_arguments? hread hstarves
  unfold Rule.word
  split
  · exact concurs_advance_bind (agrees_pure _)
  split
  next construct hconstruct =>
    exact concurs_advance_bind (leaves_construct? hread hconstruct).agrees.loosen
  split
  · refine concurs_advance_bind (Agrees.loosen ?_)
    -- a jump has a value where an expression starts
    refine agrees_startsExpression_ite (Leaves.toConcurs ?_) (agrees_pure _)
    exact hread.expression.bind fun value => agrees_pure _
  split
  · exact concurs_advance_bind
      (harguments.bind_loose (fun _ => agrees_pure _) fun _ _ => absorbs_pure _)
  split
  · exact concurs_advance_bind
      (harguments.bind_loose (fun _ => agrees_pure _) fun _ _ => absorbs_pure _)
  split
  · exact concurs_advance_bind
      ((leaves_definedForm hread).bind fun form => agrees_pure _).agrees.loosen
  split
  · exact concurs_advance_bind
      (hread.expression.bind fun operand => agrees_pure _).agrees.loosen
  split
  · exact leaves_unexpected.toConcurs
  -- with parentheses behind it a name is a call, also that of a variable
  · refine concurs_advance_bind (agrees_isLocal_bind text fun bound => ?_)
    have hcall := agrees_call hread hstarves none text false line
    refine ⟨concurs_isAtCallParen_bind fun paren => ?_, fun hk => .isAtCallParen ?_⟩
    · split
      · exact concurs_pure _
      · exact hcall.toConcurs
    · split
      · exact atMark_pure _
      · exact hcall.atMark hk

omit hstarves in
theorem leaves_parenthesized (line : Nat) :
    Leaves fork fork.least false (Rule.parenthesized read line) := by
  refine (hread.statements []).allowingDo.bind_leaves fun body => ?_
  refine concurs_skipTerminators.bind_leaves fun _ => ?_
  refine leaves_expect_bind _ nofun ?_
  split
  · exact agrees_pure _
  · exact agrees_pure _
  · exact agrees_pure _

theorem agrees_constant (name : String) (line : Nat) :
    Agrees fork fork.least true (Rule.constant read name line) :=
  agrees_isAtCallParen_ite (agrees_call hread hstarves _ _ _ _).toConcurs (agrees_pure _)

omit hread hstarves in
/-- A constant has to come behind a leading `::`. -/
theorem leaves_outermost (line : Nat) : Leaves fork fork.least false (Rule.outermost line) := by
  refine ⟨concurs_current_bind fun here => ?_, fun hk => FailsOn.clears fun s => ?_⟩
  · split
    · exact concurs_advance_bind (agrees_pure _)
    · exact leaves_unexpected.toConcurs
  · rw [Rule.outermost, Fork.first, nil_append, run_current_bind]
    rcases Fork.marks hk with ⟨hmark, -⟩ | ⟨hmark, -⟩ <;> rw [hmark] <;> exact ⟨_, rfl⟩

/-- Behind its first token a primary expression may be complete, so that it ends at the mark. -/
theorem agrees_formBehind? {line : Nat} {form : Parser Node}
    (h : Rule.formBehind? read line token = some form) : Agrees fork fork.least true form := by
  have hloose : ∀ {α : Type} {p : Parser α} {f : α → Form}, Agrees fork fork.least false p →
      Agrees fork fork.least true (do return (⟨f (← p), line⟩ : Node)) :=
    fun hp => (hp.bind fun _ => agrees_pure _).loosen
  unfold Rule.formBehind? at h
  split at h
  case h_4 =>
    cases h
    exact hloose (f := id) (agrees_strings _)
  case h_5 =>
    cases h
    exact hloose (still_segments _).agrees
  case h_10 =>
    cases h
    exact agrees_constant hread hstarves _ line
  case h_11 =>
    cases h
    exact (leaves_outermost line).agrees.loosen
  case h_12 =>
    cases h
    exact (leaves_parenthesized hread line).agrees.loosen
  case h_13 =>
    cases h
    exact hloose (leaves_items hread (by nofun) _ _).agrees
  case h_14 =>
    cases h
    exact hloose (f := fun entries => .hash entries true) (leaves_entries hread).agrees
  case h_15 =>
    cases h
    exact (leaves_lambda hread line).agrees.loosen
  case h_16 =>
    cases h
    exact hloose (f := fun high => .range none (some high) _) hread.levels.agrees
  case h_17 => cases h
  -- the other literals are read already
  all_goals
    cases h
    exact agrees_pure _

/-- A primary expression takes its first token, which is before the mark. -/
theorem concurs_primary : Concurs fork fork.least true (Rule.primary read) := by
  refine concurs_current_bind fun here => ?_
  split
  · exact concurs_word hread hstarves _ _
  · split
    next form hform => exact concurs_advance_bind (agrees_formBehind? hread hstarves hform)
    · exact leaves_unexpected.toConcurs

/-! ### Operations -/

omit hread hstarves in
/-- The first mark is barren, if it is no opening one. -/
theorem Fork.isBarren_mark (hleast : fork.least = 0) : fork.mark.token.isBarren = true := by
  rcases Fork.marks hleast with ⟨hmark, -⟩ | ⟨hmark, -⟩ <;> rw [hmark] <;> rfl

omit hread hstarves in
/-- What fails on barren tokens does not stay at the mark. -/
theorem Fork.clears_of_failsOn {α : Type} {p : Parser α} (hleast : fork.least = 0)
    (h : ∀ (here : Located) (ahead : List Located), here.token.isBarren = true →
      FailsOn (here :: ahead) p) : Clears fork p :=
  FailsOn.clears (h fork.mark fork.rest (Fork.isBarren_mark hleast))

theorem leaves_operand : Leaves fork fork.least true (Rule.operand read) :=
  ⟨(concurs_primary hread hstarves).bind_loose hread.chain fun _ => hread.chainAbsorbs,
    fun hk => Fork.clears_of_failsOn hk fun _ _ hhere => (failsOn_primary hhere).bind _⟩

omit hread hstarves in
/-- The operand of an operator before it. -/
theorem Leaves.nested_bind_pure {p : Parser Node} {f : Node → Node}
    (hp : Leaves fork fork.least true p) :
    Leaves fork fork.least true (do return f (← Parser.nested p)) :=
  hp.nested.bind_loose (fun _ => agrees_pure _) fun _ _ => absorbs_pure _

/-- Neither an operator before an operand nor the operand starts at the mark. -/
theorem leaves_unary : Leaves fork fork.least true (Rule.unary read) := by
  refine ⟨concurs_line_bind fun line => ?_,
    fun hk => Fork.clears_of_failsOn hk fun _ _ hhere => failsOn_unary hhere⟩
  refine concurs_eat_ite hread.unary.nested_bind_pure.agrees ?_
  refine concurs_eat_ite hread.unary.nested_bind_pure.agrees ?_
  refine concurs_eat_ite hread.unary.nested_bind_pure.agrees ?_
  exact (leaves_operand hread hstarves).toConcurs

omit hstarves in
/-- A power asks for its exponent, on the next line if need be. -/
theorem agrees_power (base : Node) : Agrees fork fork.least true (Rule.power read base) := by
  refine ⟨concurs_line_bind fun line => ?_, fun _ => .line (.eat rfl (atMark_pure _))⟩
  refine concurs_eat_ite (Leaves.agrees ?_) (concurs_pure _)
  exact concurs_skipNewlines.bind_leaves fun _ => hread.signed.nested_bind_pure

omit hread hstarves in
theorem absorbs_power (base : Node) : Absorbs fork true (Rule.power read base) :=
  absorbs_line_bind fun _ => absorbs_eat_bind nofun (absorbs_pure _)

omit hstarves in
/-- A literal with its minus ends behind its number, so the run is not at the mark before. -/
theorem Fork.same_behindMinus {line : Nat} {s s' : State} {y x' : List Located} {a : Node}
    (literal : Option Form) (hliteral : y = [] → literal = none)
    (hrun : (behindMinus read line literal).run (s.at (fork.first y)) =
      .ok (a, s'.at (fork.first x')))
    (hlength : fork.least ≤ x'.length) :
    true = true ∧ fork.Doomed x' ∨
      fork.Same a s' x' ((behindMinus read line literal).run (s.at (fork.second y))) := by
  cases literal with
  | none => exact hread.signed.nested_bind_pure.agrees.same_of_run hrun hlength
  | some form =>
    have hy : y ≠ [] := fun hnil => nomatch hliteral hnil
    refine (concurs_advance_bind ?_).same s y a s' x' hy hrun hlength
    exact (hread.chain _).bind_loose (agrees_power hread) fun _ => absorbs_power

omit hread hstarves in
theorem forward_advance : Forward advance := by
  intro s a s' hrun
  cases hrun
  exact s.cursor.tokens_advance

/-- A minus is read with the number behind it, of which both runs see the same. -/
theorem leaves_signed : Leaves fork fork.least true (Rule.signed read) := by
  have hpower : Concurs fork fork.least true (Rule.unary read >>= Rule.power read) :=
    (leaves_unary hread hstarves).toConcurs.bind_loose (agrees_power hread)
      fun _ => absorbs_power
  refine ⟨⟨?_, ?_⟩, fun hk => Fork.clears_of_failsOn hk fun _ _ hhere => failsOn_signed hhere⟩
  · refine looks_current.forward_bind fun here => ?_
    split
    · exact hpower.forward
    · refine (looks_peek 1).forward_bind fun number => (looks_peek 2).forward_bind fun behind => ?_
      refine forward_advance.bind fun _ => ?_
      split
      · exact forward_advance.bind fun _ =>
          (hread.chain _).forward.bind fun base => (agrees_power hread base).forward
      · exact hread.signed.nested.forward.bind fun _ => forward_pure _
  · intro s x a s' x' hx hrun hlength
    obtain ⟨here, y, rfl⟩ := exists_cons_of_ne_nil hx
    by_cases hhere : here.token = .op (.binary .sub)
    · -- both runs see the same number behind the minus, or none
      obtain ⟨heq, hnone⟩ := @Fork.negated?_eq fork here y
      rw [Fork.first_cons, run_signed_of_minus hhere (Fork.first_ne_nil _)] at hrun
      rw [Fork.second_cons, run_signed_of_minus hhere (Fork.second_ne_nil _), ← heq]
      exact Fork.same_behindMinus hread _ hnone hrun hlength
    · rw [Fork.first_cons, run_signed_of_ne hhere] at hrun
      rw [Fork.second_cons, run_signed_of_ne hhere]
      exact hpower.same s (here :: y) a s' x' hx hrun hlength

/-- The levels are read from the tightest one out.  A level with a `&` asks for its operand, so what
it returns is not at a doomed place. -/
theorem leaves_operation (levels : List (List BinaryOp)) :
    Leaves fork fork.least (lacksBitAnd levels) (Rule.operation read levels) := by
  induction levels with
  | nil => exact leaves_signed hread hstarves
  | cons level tighter ih =>
    exact ih.bind_loose (hread.operationTail level tighter) fun h left =>
      hread.tailAbsorbs level tighter left h

omit hstarves in
/-- An operator of the level is before the mark.  Then its right operand is, and the tail goes on.
-/
theorem agrees_operationTail (level : List BinaryOp) (tighter : List (List BinaryOp))
    (left : Node) :
    Agrees fork fork.least (lacksBitAnd (level :: tighter))
      (Rule.operationTail read level tighter left) := by
  refine ⟨concurs_line_bind fun line => ?_, fun hk => .line ?_⟩
  · refine (looks_joining? level).bind (fun s x hx => ?_) fun joined => ?_
    · obtain ⟨here, y, rfl⟩ := exists_cons_of_ne_nil hx
      rfl
    · split
      -- the operand binds tighter, and what joins it is this level again
      · refine concurs_advance_bind (Leaves.agrees ?_)
        refine concurs_skipNewlines.bind_leaves fun _ => ?_
        exact (hread.operation tighter).bind_loose
          (fun right => hread.operationTail level tighter _)
          fun h right => hread.tailAbsorbs level tighter _ h
      · exact concurs_pure _
  · exact (looks_joining? level).atMark
      (fun s => Token.joining?_of_isMark Fork.isMark_mark level s.pipeCloses)
      (fun s => Token.joining?_of_isMark Fork.isMark_mark' level s.pipeCloses) (atMark_pure _)

omit hread in
/-- A level with a `&` takes the one at a doomed place and finds no operand.  The other levels leave
it. -/
theorem absorbs_operationTail (level : List BinaryOp) {tighter : List (List BinaryOp)}
    (htighter : lacksBitAnd tighter = true) (left : Node) :
    Absorbs fork (lacksBitAnd (level :: tighter))
      (Rule.operationTail read level tighter left) := by
  intro here s a s' x' hdoomed hrun
  obtain ⟨hdiffers, there, hthere, hhere⟩ := id hdoomed
  obtain rfl := singleton_inj.1 hthere
  have hlevels : lacksBitAnd (level :: tighter) = !level.contains .bitAnd := by
    show (!level.contains .bitAnd && lacksBitAnd tighter) = _
    rw [htighter, Bool.and_true]
  rw [hlevels]
  rw [Rule.operationTail, Fork.first_cons, run_line_bind] at hrun
  cases hlevel : level.contains .bitAnd with
  | true =>
    have hjoining : here.token.joining? level s.pipeCloses = some .bitAnd := by
      rw [hhere]
      exact if_pos (by rw [hlevel]; rfl)
    rw [(looks_joining? level).run_bind_of_eq hjoining] at hrun
    have hmark : fork.mark.token = .done := by
      rw [fork.token, hdiffers.kind_eq]
      rfl
    have hfails : FailsOn (fork.first []) (read (.operation tighter)) :=
      hstarves.barren _ rfl fork.mark fork.rest (by rw [hmark]; rfl)
    obtain ⟨failure, herror⟩ := hfails.bind (fun right =>
      read (.operationTail level tighter ⟨BinaryOp.bitAnd.join left right, here.line⟩)) s
    -- behind the `&` comes the end of the input, where no operand starts
    have hnewline : fork.mark.token ≠ .newline := by
      rw [hmark]
      exact Token.noConfusion
    replace hrun : Parser.run (advance >>= fun _ => skipNewlines >>= fun _ =>
      read (.operation tighter) >>= fun right =>
        read (.operationTail level tighter ⟨BinaryOp.bitAnd.join left right, here.line⟩))
      (s.at (here :: fork.first [])) = _ := hrun
    rw [run_advance_bind (Fork.first_ne_nil _), Fork.first, nil_append,
      run_skipNewlines_bind hnewline] at hrun
    cases herror.symm.trans hrun
  | false =>
    have hjoining : here.token.joining? level s.pipeCloses = none := by
      rw [hhere]
      exact if_neg (by rw [hlevel]; exact Bool.false_ne_true)
    rw [(looks_joining? level).run_bind_of_eq hjoining] at hrun
    exact absorbs_pure left here s a s' x' hdoomed hrun

/-! ### Ranges, the ternary and assignments -/

/-- The `&` is one of the levels, so behind an operation no place is doomed any more. -/
theorem leaves_range : Leaves fork fork.least false (Rule.range read) := by
  have hlow : Leaves fork fork.least false (Rule.operation read BinaryOp.levels) := by
    have hlevels : lacksBitAnd BinaryOp.levels = false := by decide
    rw [← hlevels]
    exact leaves_operation hread hstarves BinaryOp.levels
  refine hlow.bind fun low => ⟨concurs_current_bind fun here => ?_, fun _ => .current ?_⟩
  -- before the marks the dots may be taken, at the marks none stand
  · split
    · refine concurs_advance_bind (agrees_startsExpression_ite ?_ (agrees_pure _))
      exact (hread.levels.bind fun high => agrees_pure _).toConcurs
    · exact concurs_pure _
  · split
    next h => exact absurd h (Fork.mark_ne rfl)
    · split
      next h => exact absurd h (Fork.mark'_ne rfl)
      · exact atMark_pure _

theorem leaves_ternary : Leaves fork fork.least false (Rule.ternary read) := by
  refine (leaves_range hread hstarves).bind fun condition => ?_
  refine ⟨concurs_line_bind fun line => ?_, fun _ => .line (.eat rfl (atMark_pure _))⟩
  refine concurs_eat_ite (Leaves.agrees ?_) (concurs_pure _)
  refine concurs_skipNewlines.bind_leaves fun _ => ?_
  refine hread.ternary.nested.weak.bind_leaves fun whenTrue => ?_
  refine concurs_skipNewlines.bind_leaves fun _ => leaves_eat_bind nofun (Leaves.agrees ?_) ?_
  · refine concurs_skipNewlines.bind_leaves fun _ => ?_
    exact hread.ternary.nested.bind fun whenFalse => agrees_pure _
  · exact leaves_of_fails fun _ => ⟨_, rfl⟩

omit hread hstarves in
/-- What becomes the target of an assignment does not depend on the place. -/
theorem still_target (node : Node) : Still (Rule.target node) := by
  unfold Rule.target
  split
  · exact (still_declare _).bind fun _ => still_pure _
  · exact still_pure _
  · exact still_pure _
  · exact still_pure _
  · exact still_pure _
  · exact still_pure _
  · intro s a s' tokens hrun
    cases hrun

omit hread hstarves in
theorem Token.assignment?_of_isMark (h : token.isMark = true) : token.assignment? = none := by
  cases token with
  | op operator => cases h
  | _ => rfl

/-- A target is made of what has been read, whatever comes behind it. -/
theorem leaves_expression : Leaves fork fork.least false (Rule.expression read) := by
  refine Leaves.nested ((leaves_ternary hread hstarves).bind fun left => ⟨?_, fun _ => ?_⟩)
  · refine looks_assigning?.bind (fun s x hx => ?_) fun assigned => ?_
    · obtain ⟨here, y, rfl⟩ := exists_cons_of_ne_nil hx
      rfl
    · split
      · refine (still_target left).concurs_bind fun place => ?_
        refine concurs_advance_bind (Leaves.agrees ?_)
        refine concurs_skipNewlines.bind_leaves fun _ => ?_
        exact hread.expression.bind fun value => agrees_pure _
      · exact concurs_pure _
  · exact looks_assigning?.atMark (fun _ => Token.assignment?_of_isMark Fork.isMark_mark)
      (fun _ => Token.assignment?_of_isMark Fork.isMark_mark') (atMark_pure _)

/-! ### Arguments and conditions -/

omit hread hstarves in
/-- The word that negates an argument is taken, and an expression follows. -/
theorem run_argumentValue_of_not (hhere : here.token = .word "not") (s : State) :
    (Rule.argumentValue read).run (s.at (here :: ahead)) =
      (advance >>= fun _ => do return (⟨.not (← read .expression), here.line⟩ : Node)).run
        (s.at (here :: ahead)) := by
  have hat : (here.token == .word "not") = true := beq_iff_eq.2 hhere
  obtain ⟨token, line, spaced⟩ := here
  obtain rfl : token = .word "not" := hhere
  rw [Rule.argumentValue, run_isAt_bind, hat]
  rfl

omit hread hstarves in
theorem run_argumentValue_of_ne (hhere : here.token ≠ .word "not") (s : State) :
    (Rule.argumentValue read).run (s.at (here :: ahead)) =
      (Rule.expression read).run (s.at (here :: ahead)) := by
  have hat : (here.token == .word "not") = false := beq_eq_false_iff_ne.2 hhere
  rw [Rule.argumentValue, run_isAt_bind, hat]
  rfl

/-- A `not` in an argument negates a whole expression. -/
theorem leaves_argumentValue : Leaves fork fork.least false (Rule.argumentValue read) := by
  have hexpression := leaves_expression hread hstarves
  have hprimary := concurs_primary hread hstarves
  refine ⟨⟨?_, ?_⟩, fun hk => Fork.clears_of_failsOn hk fun here ahead hhere =>
    (failsOn_signed hhere).argumentValue (Token.ne_of_isBarren hhere rfl)⟩
  · refine (looks_isAt _).forward_bind fun negated => ?_
    split
    · exact hprimary.forward
    · exact hexpression.forward
  · intro s x a s' x' hx hrun hlength
    obtain ⟨here, y, rfl⟩ := exists_cons_of_ne_nil hx
    by_cases hhere : here.token = .word "not"
    · -- behind the `not` a whole expression is its operand
      rw [Fork.first_cons, run_argumentValue_of_not hhere] at hrun
      rw [Fork.second_cons, run_argumentValue_of_not hhere]
      refine (concurs_advance_bind (Leaves.agrees ?_)).same s (here :: y) a s' x' hx hrun
        hlength
      exact hread.expression.bind fun operand => agrees_pure _
    · rw [Fork.first_cons, run_argumentValue_of_ne hhere] at hrun
      rw [Fork.second_cons, run_argumentValue_of_ne hhere]
      exact hexpression.same s (here :: y) a s' x' hx hrun hlength

/-- A splat, a block, a pair or a value; only a `&` may stand alone. -/
theorem leaves_argument : Leaves fork fork.least false (Rule.argument read) := by
  refine ⟨concurs_current_bind fun here => ?_,
    fun hk => Fork.clears_of_failsOn hk fun _ _ hhere => failsOn_argument hhere⟩
  refine concurs_eat_ite (hread.ternary.bind fun _ => agrees_pure _).agrees ?_
  refine concurs_eat_ite (hread.ternary.bind fun _ => agrees_pure _).agrees ?_
  refine concurs_eat_ite ?_ ?_
  · refine agrees_startsExpression_ite ?_ (agrees_pure _)
    exact (hread.ternary.bind fun _ => agrees_pure _).toConcurs
  split
  · refine concurs_advance_bind (Leaves.agrees ?_)
    refine concurs_skipNewlines.bind_leaves fun _ => ?_
    exact hread.argumentValue.bind fun value => agrees_pure _
  · refine (leaves_argumentValue hread hstarves).toConcurs.bind fun value => ?_
    -- an arrow behind the value makes a pair of it
    refine ⟨concurs_eat_ite (Leaves.agrees ?_) (concurs_pure _),
      fun _ => .eat rfl (atMark_pure _)⟩
    refine concurs_skipNewlines.bind_leaves fun _ => ?_
    exact hread.argumentValue.bind fun mapped => agrees_pure _

theorem leaves_negation : Leaves fork fork.least false (Rule.negation read) := by
  refine leaves_line_bind fun line => leaves_eat_ite nofun ?_ (leaves_expression hread hstarves)
  exact (hread.negation.nested.bind fun operand => agrees_pure _).agrees

theorem leaves_condition : Leaves fork fork.least false (Rule.condition read) :=
  (leaves_negation hread hstarves).bind hread.conditionTail

omit hstarves in
/-- A word that joins conditions is before the mark, and so is what it joins. -/
theorem agrees_conditionTail (left : Node) :
    Agrees fork fork.least false (Rule.conditionTail read left) := by
  refine ⟨concurs_current_bind fun here => ?_, fun hk => .current ?_⟩
  · split
    · refine concurs_advance_bind (Leaves.agrees ?_)
      refine concurs_skipNewlines.bind_leaves fun _ => ?_
      exact hread.negation.bind fun right => hread.conditionTail _
    · exact concurs_pure _
  · rcases Fork.marks hk with ⟨hmark, hmark'⟩ | ⟨hmark, hmark'⟩ <;> rw [hmark, hmark'] <;>
      exact atMark_pure _

/-! ### Statements -/

omit hread hstarves in
theorem concurs_oneTarget : Concurs fork 1 false Rule.oneTarget := by
  refine concurs_line_bind fun line => (concurs_eat _).bind_weak fun splat => ?_
  refine concurs_next.bind_weak fun token => ?_
  extract_lets finish
  have hfinish : ∀ node, Concurs fork 1 false (finish node) := fun _ => concurs_pure _
  split
  · exact (concurs_declare _).bind_weak fun _ => hfinish _
  · exact hfinish _
  · exact (leaves_of_fails fun _ => ⟨_, rfl⟩).toConcurs

omit hstarves in
/-- Targets are told from a call by a look ahead, which both runs take. -/
theorem concurs_targets : Concurs fork 1 false (Rule.targets read) := by
  refine concurs_oneTarget.bind_weak fun first => ?_
  refine concurs_eat_ite (.of_weak ?_) (concurs_pure _)
  exact hread.targets.bind_weak fun others => concurs_pure _

omit hstarves in
theorem leaves_multiAssign : Leaves fork fork.least false (Rule.multiAssign read) := by
  refine leaves_line_bind fun line => (concurs_targets hread).bind_leaves fun places => ?_
  refine leaves_expect_bind _ nofun (Leaves.agrees ?_)
  refine concurs_skipNewlines.bind_leaves fun _ => hread.expression.bind fun first => ?_
  exact hread.moreArguments.bind fun others => agrees_pure _

omit hstarves in
/-- A modifier is a word before the mark, and a condition behind it. -/
theorem agrees_modifiers (node : Node) :
    Agrees fork fork.least false (Rule.modifiers read node) := by
  refine ⟨concurs_current_bind fun here => ?_, fun hk => .current ?_⟩
  · split
    · split
      · refine concurs_advance_bind (Leaves.agrees (hread.condition.bind fun operand => ?_))
        split
        · exact hread.modifiers _
        · exact agrees_pure _
      · exact concurs_pure _
    · exact concurs_pure _
  · rcases Fork.marks hk with ⟨hmark, hmark'⟩ | ⟨hmark, hmark'⟩ <;> rw [hmark, hmark'] <;>
      exact atMark_pure _

/-- The look ahead for targets finds the same on both inputs. -/
theorem concurs_statement : Concurs fork fork.least false (Rule.statement read) := by
  have hlooks : Looks get fun s => s := fun _ => rfl
  refine hlooks.bind (fun s x hx => ?_) fun s => ?_
  · show (if announcesTargets false (s.at (fork.first x)).cursor.tokens = true then _ else _) =
      (if announcesTargets false (s.at (fork.second x)).cursor.tokens = true then _ else _)
    rw [State.tokens_at _ (Fork.first_ne_nil _), State.tokens_at _ (Fork.second_ne_nil _),
      fork.announcesTargets_eq]
  · -- what the look has found is the same, so both runs go the same way
    extract_lets cursor modified
    split
    · exact ((leaves_multiAssign hread).bind hread.modifiers).toConcurs
    · exact ((leaves_condition hread hstarves).bind hread.modifiers).toConcurs

/-- Behind a statement that ends before the mark both runs see the same token. -/
theorem concurs_statements (stops : List String) :
    Concurs fork 1 false (Rule.statements read stops) := by
  refine concurs_skipTerminators.bind_weak fun _ => concurs_current_bind fun here => ?_
  split
  · exact concurs_pure _
  refine (concurs_statement hread hstarves).weaken.bind_weak fun first => ?_
  refine concurs_current_bind fun behind => ?_
  extract_lets token rest
  split
  · exact (leaves_of_fails fun _ => ⟨_, rfl⟩).toConcurs
  · exact (hread.statements stops).bind_weak fun others => concurs_pure _

end Rules

/-! ### The knot -/

/-- Every reader of the grammar agrees with itself on inputs that part at a mark. -/
theorem agreesOn_readAt (fork : Fork) (bound : Nat) : AgreesOn fork (readAt bound) := by
  induction bound with
  | zero =>
    -- without a request left every reader fails
    have hleaves : ∀ (n : Nonterminal) (k : Nat) (loose : Bool), Leaves fork k loose (readAt 0 n) :=
      fun _ _ _ => leaves_of_fails fun _ => ⟨_, rfl⟩
    have habsorbs : ∀ (n : Nonterminal) (loose : Bool), Absorbs fork loose (readAt 0 n) :=
      fun _ _ _ _ _ _ _ _ hrun => nomatch hrun
    exact {
      statements := fun _ => (hleaves _ _ _).toConcurs
      moreItems := fun _ => (hleaves _ _ _).toConcurs
      moreEntries := (hleaves _ _ _).toConcurs
      params := fun _ => (hleaves _ _ _).toConcurs
      targets := (hleaves _ _ _).toConcurs
      moreClasses := (hleaves _ _ _).toConcurs
      rescues := (hleaves _ _ _).toConcurs
      whens := (hleaves _ _ _).toConcurs
      constPath := fun _ _ => (hleaves _ _ _).toConcurs
      modifiers := fun _ => (hleaves _ _ _).agrees
      conditionTail := fun _ => (hleaves _ _ _).agrees
      moreArguments := (hleaves _ _ _).agrees
      chain := fun _ => (hleaves _ _ _).agrees
      chainAbsorbs := fun _ => habsorbs _ _
      operationTail := fun _ _ _ => (hleaves _ _ _).agrees
      tailAbsorbs := fun _ _ _ _ => habsorbs _ _
      condition := hleaves _ _ _
      negation := hleaves _ _ _
      expression := hleaves _ _ _
      ternary := hleaves _ _ _
      operation := fun _ => hleaves _ _ _
      signed := hleaves _ _ _
      unary := hleaves _ _ _
      argument := hleaves _ _ _
      argumentValue := hleaves _ _ _
      otherwise := hleaves _ _ _ }
  | succ bound ih =>
    have hstarves := starves_readAt bound
    exact {
      statements := concurs_statements ih hstarves
      moreItems := concurs_moreItems ih
      moreEntries := concurs_moreEntries ih
      params := concurs_params ih
      targets := concurs_targets ih
      moreClasses := concurs_moreClasses ih
      rescues := concurs_rescues ih
      whens := concurs_whens ih
      constPath := concurs_constPath ih
      modifiers := agrees_modifiers ih
      conditionTail := agrees_conditionTail ih
      moreArguments := agrees_moreArguments ih
      chain := agrees_chain ih hstarves
      chainAbsorbs := absorbs_chain
      operationTail := agrees_operationTail ih
      tailAbsorbs := fun level _ left h => absorbs_operationTail hstarves level h left
      condition := leaves_condition ih hstarves
      negation := leaves_negation ih hstarves
      expression := leaves_expression ih hstarves
      ternary := leaves_ternary ih hstarves
      operation := leaves_operation ih hstarves
      signed := leaves_signed ih hstarves
      unary := leaves_unary ih hstarves
      argument := leaves_argument ih hstarves
      argumentValue := leaves_argumentValue ih hstarves
      otherwise := leaves_otherwise ih }

end LaneScript
