import LaneScript.Proofs.ForkedRuns

/-!
# Tokens at which no expression starts

Where an expression has to come, most tokens will do, but not those that close or divide something.
Every reader of an expression fails on such a token, `Token.isBarren`, since in the end each of them
asks for a primary expression, before it has taken anything.  This holds whatever reader the rules
get for their parts.

An operator before an operand only puts this off by one token: an argument that starts with one
fails if the token behind it is barren.
-/

namespace LaneScript

open LaneScript.Parser

/-- No expression starts at the token. -/
def Token.isBarren : Token → Bool
  | .newline | .semicolon | .done | .rparen | .rbracket | .rbrace | .comma | .arrow
  | .op .assign => true
  | .word text => Rule.clauseWords.contains text
  | _ => false

/-- The token stands before an operand, and not behind one. -/
def Token.needsOperand : Token → Bool
  | .scope | .op (.binary .sub) | .op (.binary .mul) | .op (.binary .pow) | .op .bang
  | .op .tilde => true
  | _ => false

/-- The nonterminals that start with an expression. -/
def Nonterminal.startsExpression : Nonterminal → Bool
  | .condition | .negation | .expression | .ternary | .operation _ | .signed | .unary | .argument
  | .argumentValue => true
  | _ => false

theorem Token.ne_of_isBarren {token other : Token} (h : token.isBarren = true)
    (hother : other.isBarren = false) : token ≠ other := by
  rintro rfl
  rw [h] at hother
  cases hother

/-! ### From the primary expression to the argument -/

section Starting

variable {read : Reader} {tokens : List Located} {here : Located} {ahead : List Located}

/-- The words among the barren tokens are those that end a body. -/
theorem failsOn_word {text : String} (h : Rule.clauseWords.contains text = true) (line : Nat) :
    FailsOn tokens (Rule.word read text line) := by
  have hmem : text ∈ Rule.clauseWords := List.contains_iff_mem.1 h
  intro s
  simp only [Rule.clauseWords, List.mem_cons, List.not_mem_nil, or_false] at hmem
  rcases hmem with rfl | rfl | rfl | rfl <;> exact ⟨_, rfl⟩

theorem failsOn_primary (h : here.token.isBarren = true) :
    FailsOn (here :: ahead) (Rule.primary read) := by
  intro s
  obtain ⟨token, line, spaced⟩ := here
  rw [Rule.primary, run_current_bind]
  cases token with
  | word text => exact failsOn_word h line s
  | newline => exact ⟨_, rfl⟩
  | semicolon => exact ⟨_, rfl⟩
  | done => exact ⟨_, rfl⟩
  | rparen => exact ⟨_, rfl⟩
  | rbracket => exact ⟨_, rfl⟩
  | rbrace => exact ⟨_, rfl⟩
  | comma => exact ⟨_, rfl⟩
  | arrow => exact ⟨_, rfl⟩
  | op operator =>
    cases operator with
    | assign => exact ⟨_, rfl⟩
    | _ => cases h
  | _ => cases h

theorem FailsOn.unary (h : FailsOn (here :: ahead) (Rule.primary read))
    (hbang : here.token ≠ .op .bang) (htilde : here.token ≠ .op .tilde)
    (hplus : here.token ≠ .op (.binary .add)) : FailsOn (here :: ahead) (Rule.unary read) := by
  intro s
  rw [Rule.unary, run_line_bind, eatOp, run_eat_bind_of_ne hbang, if_neg Bool.false_ne_true,
    eatOp, run_eat_bind_of_ne htilde, if_neg Bool.false_ne_true, eatOp, run_eat_bind_of_ne hplus,
    if_neg Bool.false_ne_true]
  exact h.bind _ s

theorem FailsOn.signed (h : FailsOn (here :: ahead) (Rule.unary read))
    (hminus : here.token ≠ .op (.binary .sub)) : FailsOn (here :: ahead) (Rule.signed read) := by
  intro s
  rw [Rule.signed, run_current_bind, if_pos (bne_iff_ne.2 hminus)]
  exact h.bind _ s

theorem failsOn_unary (h : here.token.isBarren = true) :
    FailsOn (here :: ahead) (Rule.unary read) :=
  (failsOn_primary h).unary (Token.ne_of_isBarren h rfl) (Token.ne_of_isBarren h rfl)
    (Token.ne_of_isBarren h rfl)

theorem failsOn_signed (h : here.token.isBarren = true) :
    FailsOn (here :: ahead) (Rule.signed read) :=
  (failsOn_unary h).signed (Token.ne_of_isBarren h rfl)

/-- An operation starts with an operand, on every level. -/
theorem FailsOn.operation (h : FailsOn tokens (Rule.signed read)) (levels : List (List BinaryOp)) :
    FailsOn tokens (Rule.operation read levels) := by
  induction levels with
  | nil => exact h
  | cons level tighter ih => exact ih.bind _

theorem FailsOn.ternary (h : FailsOn tokens (Rule.signed read)) :
    FailsOn tokens (Rule.ternary read) :=
  ((h.operation _).bind _).bind _

theorem FailsOn.expression (h : FailsOn tokens (Rule.signed read)) :
    FailsOn tokens (Rule.expression read) :=
  (h.ternary.bind _).nested

theorem FailsOn.negation (h : FailsOn (here :: ahead) (Rule.signed read))
    (hnot : here.token ≠ .word "not") : FailsOn (here :: ahead) (Rule.negation read) := by
  intro s
  rw [Rule.negation, run_line_bind, eatWord, run_eat_bind_of_ne hnot,
    if_neg Bool.false_ne_true]
  exact h.expression s

theorem FailsOn.argumentValue (h : FailsOn (here :: ahead) (Rule.signed read))
    (hnot : here.token ≠ .word "not") : FailsOn (here :: ahead) (Rule.argumentValue read) := by
  intro s
  have hat : (here.token == .word "not") = false := beq_eq_false_iff_ne.2 hnot
  rw [Rule.argumentValue, run_isAt_bind, hat, if_neg Bool.false_ne_true]
  exact h.expression s

/-- An argument that is no splat, no block and no pair starts with its value. -/
theorem FailsOn.argument (h : FailsOn (here :: ahead) (Rule.signed read))
    (hnot : here.token ≠ .word "not") (hsplat : here.token ≠ .op (.binary .mul))
    (hdouble : here.token ≠ .op (.binary .pow)) (hblock : here.token ≠ .op (.binary .bitAnd))
    (hlabel : ∀ key, here.token ≠ .label key) :
    FailsOn (here :: ahead) (Rule.argument read) := by
  intro s
  rw [Rule.argument, run_current_bind, eatOp, run_eat_bind_of_ne hsplat,
    if_neg Bool.false_ne_true, eatOp, run_eat_bind_of_ne hdouble, if_neg Bool.false_ne_true,
    eatOp, run_eat_bind_of_ne hblock, if_neg Bool.false_ne_true]
  split
  next key hkey => exact absurd hkey (hlabel key)
  · exact (h.argumentValue hnot).bind _ s

theorem failsOn_argument (h : here.token.isBarren = true) :
    FailsOn (here :: ahead) (Rule.argument read) :=
  (failsOn_signed h).argument (Token.ne_of_isBarren h rfl) (Token.ne_of_isBarren h rfl)
    (Token.ne_of_isBarren h rfl) (Token.ne_of_isBarren h rfl)
    fun _ => Token.ne_of_isBarren h rfl

theorem failsOn_condition (h : here.token.isBarren = true) :
    FailsOn (here :: ahead) (Rule.condition read) :=
  ((failsOn_signed h).negation (Token.ne_of_isBarren h rfl)).bind _

end Starting

/-! ### Readers that fail where nothing starts -/

/-- The reader fails on a barren token wherever an expression has to start, and behind an operator
that stands before the operand of an argument. -/
structure Starves (read : Reader) : Prop where
  barren : ∀ n : Nonterminal, n.startsExpression = true → ∀ (here : Located) (ahead : List Located),
    here.token.isBarren = true → FailsOn (here :: ahead) (read n)
  operand : ∀ (here next : Located) (ahead : List Located), here.token.needsOperand = true →
    next.token.isBarren = true → FailsOn (here :: next :: ahead) (read .argument)

section Starves

variable {read : Reader} {here next : Located} {ahead : List Located}

/-- A minus needs an operand. -/
theorem failsOn_signed_minus (hread : Starves read) (hhere : here.token = .op (.binary .sub))
    (hnext : next.token.isBarren = true) :
    FailsOn (here :: next :: ahead) (Rule.signed read) := by
  intro s
  have hminus : ¬ (here.token != .op (.binary .sub)) = true := by
    rw [hhere]
    decide
  have hnumber : next.token.negated? = none := by
    cases hnegated : next.token with
    | int value => rw [hnegated] at hnext; cases hnext
    | float value => rw [hnegated] at hnext; cases hnext
    | _ => rfl
  rw [Rule.signed, run_current_bind, if_neg hminus, run_peek_bind, run_peek_bind]
  show ∃ failure, Parser.run (advance >>= _) (s.at (here :: next :: ahead)) = .error failure
  rw [run_advance_bind (List.cons_ne_nil _ _)]
  have hliteral : ∀ behind : Located, (if (next.spaced || behind.token == .op (.binary .pow)) = true
      then none else next.token.negated?) = none := by
    intro behind
    rw [hnumber]
    exact ite_self _
  have hpeek : (s.at (here :: next :: ahead)).cursor.peek 1 = next := rfl
  rw [hpeek]
  simp only [hliteral]
  exact ((hread.barren .signed rfl next ahead hnext).nested).bind _ s

/-- So do the other operators before an operand. -/
theorem failsOn_unary_operator (hread : Starves read)
    (hhere : here.token = .op .bang ∨ here.token = .op .tilde)
    (hnext : next.token.isBarren = true) :
    FailsOn (here :: next :: ahead) (Rule.unary read) := by
  have hoperand : FailsOn (next :: ahead) (nested (read .unary)) :=
    (hread.barren .unary rfl next ahead hnext).nested
  intro s
  rw [Rule.unary, run_line_bind]
  rcases hhere with hhere | hhere
  · rw [eatOp, run_eat_bind_of_eq hhere (List.cons_ne_nil _ _), if_pos rfl]
    exact hoperand.bind _ s
  · have hne : here.token ≠ .op .bang := by rw [hhere]; nofun
    rw [eatOp, run_eat_bind_of_ne hne, if_neg Bool.false_ne_true, eatOp,
      run_eat_bind_of_eq hhere (List.cons_ne_nil _ _), if_pos rfl]
    exact hoperand.bind _ s

theorem failsOn_outermost (hhere : here.token = .scope) (hnext : next.token.isBarren = true) :
    FailsOn (here :: next :: ahead) (Rule.primary read) := by
  intro s
  obtain ⟨_, line, spaced⟩ := here
  obtain rfl : _ = Token.scope := hhere
  rw [Rule.primary, run_current_bind]
  show ∃ failure, Parser.run (advance >>= fun _ => Rule.outermost line) _ = .error failure
  rw [run_advance_bind (List.cons_ne_nil _ _), Rule.outermost, run_current_bind]
  split
  next name hname => rw [hname] at hnext; cases hnext
  · exact ⟨_, rfl⟩

/-- The value of an argument cannot be an operator alone. -/
theorem failsOn_argument_operand (hread : Starves read) (hhere : here.token.needsOperand = true)
    (hnext : next.token.isBarren = true) :
    FailsOn (here :: next :: ahead) (Rule.argument read) := by
  have hternary := hread.barren .ternary rfl next ahead hnext
  -- all but the splats are read as a signed value
  have hvalue : FailsOn (here :: next :: ahead) (Rule.signed read) →
      here.token ≠ .op (.binary .mul) → here.token ≠ .op (.binary .pow) →
      FailsOn (here :: next :: ahead) (Rule.argument read) := by
    intro hsigned hsplat hdouble
    refine hsigned.argument ?_ hsplat hdouble ?_ fun key => ?_ <;> intro heq <;>
      rw [heq] at hhere <;> cases hhere
  cases htoken : here.token with
  | scope =>
    rw [htoken] at hvalue
    refine hvalue (((failsOn_outermost htoken hnext).unary ?_ ?_ ?_).signed ?_) nofun nofun <;>
      rw [htoken] <;> nofun
  | op operator =>
    rw [htoken] at hhere hvalue
    cases operator with
    | binary op =>
      cases op with
      | sub => exact hvalue (failsOn_signed_minus hread htoken hnext) nofun nofun
      | mul =>
        intro s
        rw [Rule.argument, run_current_bind, eatOp,
          run_eat_bind_of_eq htoken (List.cons_ne_nil _ _), if_pos rfl]
        exact hternary.bind _ s
      | pow =>
        intro s
        have hsplat : here.token ≠ .op (.binary .mul) := by rw [htoken]; nofun
        rw [Rule.argument, run_current_bind, eatOp, run_eat_bind_of_ne hsplat,
          if_neg Bool.false_ne_true, eatOp, run_eat_bind_of_eq htoken (List.cons_ne_nil _ _),
          if_pos rfl]
        exact hternary.bind _ s
      | _ => cases hhere
    | bang =>
      have hunary : FailsOn (here :: next :: ahead) (Rule.unary read) :=
        failsOn_unary_operator hread (.inl htoken) hnext
      exact hvalue (hunary.signed (by rw [htoken]; nofun)) nofun nofun
    | tilde =>
      have hunary : FailsOn (here :: next :: ahead) (Rule.unary read) :=
        failsOn_unary_operator hread (.inr htoken) hnext
      exact hvalue (hunary.signed (by rw [htoken]; nofun)) nofun nofun
    | _ => cases hhere
  | _ => rw [htoken] at hhere; cases hhere

end Starves

/-- Every reader of the grammar fails where nothing starts. -/
theorem starves_readAt (bound : Nat) : Starves (readAt bound) := by
  induction bound with
  | zero => exact ⟨fun _ _ _ _ _ _ => ⟨_, rfl⟩, fun _ _ _ _ _ _ => ⟨_, rfl⟩⟩
  | succ bound ih =>
    refine ⟨fun n hn here ahead hhere => ?_, fun here next ahead => failsOn_argument_operand ih⟩
    have hsigned : FailsOn (here :: ahead) (Rule.signed (readAt bound)) := failsOn_signed hhere
    have hnot : here.token ≠ .word "not" := Token.ne_of_isBarren hhere rfl
    cases n with
    | condition => exact failsOn_condition hhere
    | negation => exact hsigned.negation hnot
    | expression => exact hsigned.expression
    | ternary => exact hsigned.ternary
    | operation levels => exact hsigned.operation levels
    | signed => exact hsigned
    | unary => exact failsOn_unary hhere
    | argument => exact failsOn_argument hhere
    | argumentValue => exact hsigned.argumentValue hnot
    | _ => cases hn

end LaneScript
