import LaneScript.Proofs.ForkedRules
import LaneScript.Tree.Same

/-!
# Lines behind a script

What is read from the lines of a script does not depend on the lines behind them: the statements of
a script are the first statements of every longer one, `prefix_of_parse_append`.  The one way in
which a line takes part in the one before it is a chain of calls, which goes on when the next line
starts with a dot.

The two inputs part where the shorter one ends and the longer one has a line end.  Statement by
statement the runs agree, up to this place.
-/

namespace LaneScript

open LaneScript.Parser
open List

/-! ### Runs of a list of statements -/

/-- What a run of a list of statements has done: it has come to the end at once, or it has read a
statement, found behind it what may stand there, and read the others. -/
theorem exists_of_run_statements {read : Reader} {stops : List String} {s s' : State}
    {body : List Node} (h : (Rule.statements read stops).run s = .ok (body, s')) :
    ∃ s₀ : State, s₀ = { s with cursor := s.cursor.skip isTerminator } ∧
      (Rule.endsStatements stops s₀.cursor.current.token = true ∧ body = [] ∧ s' = s₀ ∨
        Rule.endsStatements stops s₀.cursor.current.token = false ∧
          ∃ first s₁ others, (Rule.statement read).run s₀ = .ok (first, s₁) ∧
            (isTerminator s₁.cursor.current.token = true ∨
              Rule.endsStatements stops s₁.cursor.current.token = true) ∧
            (read (.statements stops)).run s₁ = .ok (others, s') ∧ body = first :: others) := by
  refine ⟨_, rfl, ?_⟩
  rw [Rule.statements, skipTerminators, run_modify_bind, looks_current.run_bind] at h
  split at h
  next hends =>
    cases h
    exact .inl ⟨hends, rfl, rfl⟩
  next hends =>
    obtain ⟨first, s₁, hfirst, hrest⟩ := exists_of_run_bind h
    rw [looks_current.run_bind] at hrest
    extract_lets behind rest at hrest
    split at hrest
    · cases hrest
    next hbehind =>
      obtain ⟨others, s₂, hothers, hpure⟩ := exists_of_run_bind hrest
      cases hpure
      refine .inr ⟨Bool.eq_false_iff.2 hends, first, s₁, others, hfirst, ?_, hothers, rfl⟩
      simpa [behind, Bool.and_eq_true, Classical.or_iff_not_imp_left] using hbehind

/-- From a place before the marks, the terminators are passed over up to the first mark, or up to
the same token on both inputs.  Unless it is a line end, the second mark stops this as well. -/
theorem Fork.skipTerminators_cases (fork : Fork) (x : List Located) :
    (Cursor.ofTokens (fork.first x)).skip isTerminator = .ofTokens (fork.first []) ∧
        (fork.kind ≠ .line →
          (Cursor.ofTokens (fork.second x)).skip isTerminator = .ofTokens (fork.second [])) ∨
      ∃ y, y ≠ [] ∧ (Cursor.ofTokens (fork.first x)).skip isTerminator = .ofTokens (fork.first y) ∧
        (Cursor.ofTokens (fork.second x)).skip isTerminator = .ofTokens (fork.second y) := by
  induction x with
  | nil =>
    have hmark : isTerminator fork.mark.token = false := by
      rw [fork.token]
      cases fork.kind <;> rfl
    refine .inl ⟨Cursor.skip_of_false hmark, fun hkind => ?_⟩
    -- only the mark of a line is a terminator
    have hmark' : isTerminator fork.mark'.token = false := by
      rw [fork.token']
      cases hfork : fork.kind with
      | line => exact absurd hfork hkind
      | closing => rfl
      | opening => rfl
    exact Cursor.skip_of_false hmark'
  | cons here y ih =>
    rw [first_cons, second_cons, Cursor.ofTokens_cons, Cursor.ofTokens_cons]
    cases hhere : isTerminator here.token with
    | true =>
      rw [Cursor.skip_cons hhere (first_ne_nil _), Cursor.skip_cons hhere (second_ne_nil _)]
      exact ih
    | false =>
      exact .inr ⟨here :: y, cons_ne_nil _ _, Cursor.skip_of_false hhere,
        Cursor.skip_of_false hhere⟩

theorem State.skip_at {s : State} {tokens others : List Located} {skipped : Token → Bool}
    (h : (Cursor.ofTokens tokens).skip skipped = .ofTokens others) :
    { s.at tokens with cursor := (s.at tokens).cursor.skip skipped } = s.at others := by
  rw [State.cursor_at, h]
  rfl

/-- A statement before the marks, behind which other statements end at the first mark, is the same
on both inputs, unless the second run fails. -/
theorem Fork.exists_of_statement {fork : Fork} (hkind : fork.kind ≠ .opening) {bound : Nat}
    {stops : List String} {s s₁ s' : State} {y : List Located} {first : Node} {others : List Node}
    (hy : y ≠ [])
    (hstatement : (Rule.statement (readAt bound)).run (s.at (fork.first y)) = .ok (first, s₁))
    (hothers : (readAt bound (.statements stops)).run s₁ = .ok (others, s'.at (fork.first []))) :
    ∃ y₁, s₁.at (fork.first y₁) = s₁ ∧
      fork.Same first s₁ y₁ ((Rule.statement (readAt bound)).run (s.at (fork.second y))) := by
  have hread := agreesOn_readAt fork bound
  have hagrees := concurs_statement hread (starves_readAt bound)
  have hleast : fork.least = 0 := if_neg hkind
  -- the statement ends before the mark or at it
  have hbehind := (hread.statements stops).forward s₁ others _ hothers
  have hbefore := hagrees.forward _ first s₁ hstatement
  rw [State.tokens_at _ (first_ne_nil _)] at hbehind hbefore
  obtain ⟨y₁, htokens, -, -⟩ := exists_first_between hbehind hbefore
  refine ⟨y₁, State.at_tokens htokens, ?_⟩
  rw [← State.at_tokens htokens] at hstatement
  exact (hagrees.same s y first s₁ y₁ hy hstatement (hleast ▸ Nat.zero_le _)).resolve_left
    fun hdoomed => nomatch hdoomed.1

/-! ### The end of the input and a line end -/

/-- Statements that end with the input are the first ones where a line end stands in its place. -/
theorem Fork.prefix_of_statements {fork : Fork} (hkind : fork.kind = .line) {bound : Nat}
    {s s' u : State} {x : List Located} {body extended : List Node}
    (hfirst : (readAt bound (.statements [])).run (s.at (fork.first x)) =
      .ok (body, s'.at (fork.first [])))
    (hsecond : (readAt bound (.statements [])).run (s.at (fork.second x)) = .ok (extended, u)) :
    body <+: extended := by
  have hmark : fork.mark.token = .done := by
    rw [fork.token, hkind]
    rfl
  have hopening : fork.kind ≠ .opening := by
    rw [hkind]
    nofun
  induction bound generalizing s x body extended with
  | zero => cases hfirst
  | succ bound ih =>
    obtain ⟨_, rfl, ⟨-, rfl, -⟩ | ⟨hends, first, s₁, others, hstatement, -, hothers, rfl⟩⟩ :=
      exists_of_run_statements hfirst
    · exact nil_prefix
    rcases fork.skipTerminators_cases x with ⟨hskip, -⟩ | ⟨y, hy, hskip, hskip'⟩
    · -- at the end of the input no statement is read
      rw [State.skip_at hskip] at hends
      replace hends : Rule.endsStatements [] fork.mark.token = false := hends
      rw [hmark] at hends
      cases hends
    rw [State.skip_at hskip] at hends hstatement
    obtain ⟨y₁, hplace, hsame⟩ := fork.exists_of_statement hopening hy hstatement hothers
    rw [← hplace] at hothers
    -- so the second run reads the same
    obtain ⟨_, rfl, ⟨hends', -, -⟩ | ⟨-, first', s₁', others', hstatement', -, hothers', rfl⟩⟩ :=
      exists_of_run_statements hsecond
    · obtain ⟨here, y, rfl⟩ := exists_cons_of_ne_nil hy
      rw [State.skip_at hskip'] at hends'
      exact absurd (hends.symm.trans hends') Bool.false_ne_true
    · rw [State.skip_at hskip'] at hstatement'
      rcases hsame with hsame | ⟨-, failure, hfails⟩
      · rw [hsame] at hstatement'
        cases hstatement'
        exact cons_prefix_cons.2 ⟨rfl, ih hothers hothers'⟩
      · rw [hfails] at hstatement'
        cases hstatement'

/-- What a run of a whole script has done: it has read statements up to the end of the input. -/
theorem exists_of_run_program {read : Reader} {s : State} {script : List Node}
    (h : (Rule.program read).run' s = .ok script) :
    ∃ s' : State, (read (.statements [])).run s = .ok (script, s') ∧
      s'.cursor.current.token = .done := by
  obtain ⟨last, hrun⟩ := exists_run_of_run' h
  obtain ⟨body, s', hbody, hrest⟩ := exists_of_run_bind hrun
  rw [looks_current.run_bind] at hrest
  split at hrest
  · cases hrest
  next hdone =>
    cases hrest
    exact ⟨_, hbody, by simpa using hdone⟩

/-- The only place at the end of the input is the last one. -/
theorem tokens_eq_of_done {before : List Located} {last : Located} {s : State}
    (hbefore : ∀ here ∈ before, here.token ≠ .done) (htokens : s.cursor.tokens <:+ before ++ [last])
    (hdone : s.cursor.current.token = .done) : s.cursor.tokens = [last] := by
  rcases suffix_concat_iff.1 htokens with hnil | ⟨left, hleft, hsuffix⟩
  · cases hnil
  cases left with
  | nil => exact hleft
  | cons here left =>
    obtain ⟨rfl, -⟩ := List.cons.inj hleft
    exact absurd hdone (hbefore _ (hsuffix.subset mem_cons_self))

/-- Behind a line end, the first token that is no line end is found among the lines that follow. -/
theorem noDot_of_find? {newline last : Located} {behind : List Located}
    (hnewline : newline.token = .newline) (hlast : last.token = .done)
    (h : ∀ here ∈ behind.find? (·.token != .newline),
      here.token ≠ .dot ∧ here.token ≠ .safeDot) :
    ((Cursor.mk newline (behind ++ [last])).skip (· == .newline)).current.token ≠ .dot ∧
      ((Cursor.mk newline (behind ++ [last])).skip (· == .newline)).current.token ≠ .safeDot := by
  have hskipped : (newline.token == .newline) = true := beq_iff_eq.2 hnewline
  induction behind generalizing newline with
  | nil =>
    have hstop : (last.token == .newline) = false := by
      rw [hlast]
      decide
    rw [nil_append, Cursor.skip_of_true hskipped, Cursor.skip_of_false hstop, hlast]
    exact ⟨nofun, nofun⟩
  | cons here behind ih =>
    rw [cons_append, Cursor.skip_of_true hskipped]
    by_cases hhere : here.token = .newline
    · refine ih hhere ?_ (beq_iff_eq.2 hhere)
      rwa [find?_cons_of_neg (by simp [hhere])] at h
    · have hstop : (here.token == .newline) = false := beq_eq_false_iff_ne.2 hhere
      rw [Cursor.skip_of_false hstop]
      exact h here (find?_cons_of_pos (by simp [hhere]))

/-- **Lines behind a script leave it as it is.**  If some tokens are a script by themselves, and
also with a line end and further tokens behind them, then the statements of the first script are the
first statements of the second one.  The further tokens may not go on with a chain of calls.

The line end may have blank space before it only if the end of the first script has.  For the tokens
of a text this says nothing, since `lexFrom` always puts blank space before the end of the input.
For other tokens it is needed, on account of a `&` that stands last. -/
theorem prefix_of_parse_append {file : String} {before behind : List Located}
    {newline last last' : Located} {script extended : List Node}
    (hbefore : ∀ here ∈ before, here.token ≠ .done)
    (hbehind : ∀ here ∈ behind, here.token ≠ .done) (hnewline : newline.token = .newline)
    (hlast : last.token = .done) (hlast' : last'.token = .done)
    (hspaced : newline.spaced = true → last.spaced = true)
    (hchain : ∀ here ∈ behind.find? (·.token != .newline),
      here.token ≠ .dot ∧ here.token ≠ .safeDot)
    (hscript : parse file (before ++ [last]) = .ok script)
    (hextended : parse file (before ++ newline :: behind ++ [last']) = .ok extended) :
    script <+: extended := by
  -- the inputs part at the end of the first one
  let fork : Fork := {
    kind := .line
    mark := last
    rest := []
    mark' := newline
    rest' := behind ++ [last']
    token := hlast
    token' := hnewline
    spaced := by
      cases hnewlineSpaced : newline.spaced with
      | true => exact .inl (hspaced hnewlineSpaced).symm
      | false =>
        cases hlastSpaced : last.spaced with
        | true => exact .inr ⟨rfl, rfl, rfl⟩
        | false => exact .inl rfl
    rest_ne := fun h => absurd rfl h
    noDot := fun _ => noDot_of_find? hnewline hlast' hchain
    noTarget := fun h => absurd rfl h }
  have hends : EndsOnce (before ++ [last]) := ⟨before, last, rfl, hlast, hbefore⟩
  have hends' : EndsOnce (before ++ newline :: behind ++ [last']) := by
    refine ⟨before ++ newline :: behind, last', rfl, hlast', fun here hhere => ?_⟩
    rcases mem_append.1 hhere with hhere | hhere
    · exact hbefore here hhere
    · rcases mem_cons.1 hhere with rfl | hhere
      · rw [hnewline]
        nofun
      · exact hbehind here hhere
  have hsecond : before ++ newline :: behind ++ [last'] = fork.second before :=
    List.append_assoc _ _ _
  rw [hsecond] at hends' hextended
  -- one bound will do for both of them
  rw [parse_eq_of_le hends (Nat.le_add_right _ (tokensWeight (fork.second before)))] at hscript
  rw [parse_eq_of_le hends' (Nat.le_add_left _ (tokensWeight (before ++ [last])))] at hextended
  obtain ⟨s, hrun, hdone⟩ := exists_of_run_program hscript
  obtain ⟨u, hrun', -⟩ := exists_of_run_program hextended
  have htokens : s.cursor.tokens = fork.first [] := by
    have hforward := ((agreesOn_readAt fork _).statements []).forward _ script s hrun
    have hstart : (State.start file (before ++ [last]) [.empty true] 0).cursor.tokens =
        before ++ [last] := Cursor.tokens_ofTokens (fork.first_ne_nil before)
    rw [hstart] at hforward
    exact tokens_eq_of_done hbefore hforward hdone
  rw [← State.at_tokens htokens] at hrun
  exact Fork.prefix_of_statements (s := .start file [] [.empty true] 0) rfl hrun hrun'

/-- An assignment and the first word of a line behind it. -/
def assignedThenUsed : List Located × List Located :=
  ([⟨.word "x", 1, true⟩, ⟨.op .assign, 1, true⟩, ⟨.int 1, 1, true⟩],
    [⟨.newline, 2, false⟩, ⟨.word "puts", 3, false⟩, ⟨.word "x", 3, true⟩])

theorem prefix_of_parse_append_assigned :
    ∃ script extended : List Node,
      parse "Fastfile" (assignedThenUsed.1 ++ [⟨.done, 1, true⟩]) = .ok script ∧
      parse "Fastfile" (assignedThenUsed.1 ++ ⟨.newline, 1, false⟩ :: assignedThenUsed.2 ++
        [⟨.done, 3, true⟩]) = .ok extended ∧
      script.length = 1 ∧ extended.length = 2 ∧ script <+: extended := by
  have hscript : (parse "Fastfile" (assignedThenUsed.1 ++ [⟨.done, 1, true⟩])).toOption.map
      List.length = some 1 := by
    decide +kernel
  have hextended : (parse "Fastfile" (assignedThenUsed.1 ++ ⟨.newline, 1, false⟩ ::
      assignedThenUsed.2 ++ [⟨.done, 3, true⟩])).toOption.map List.length = some 2 := by
    decide +kernel
  cases hparse : parse "Fastfile" (assignedThenUsed.1 ++ [⟨.done, 1, true⟩]) with
  | error failure =>
    rw [hparse] at hscript
    cases hscript
  | ok script =>
    cases hparse' : parse "Fastfile" (assignedThenUsed.1 ++ ⟨.newline, 1, false⟩ ::
        assignedThenUsed.2 ++ [⟨.done, 3, true⟩]) with
    | error failure =>
      rw [hparse'] at hextended
      cases hextended
    | ok extended =>
      rw [hparse] at hscript
      rw [hparse'] at hextended
      exact ⟨script, extended, rfl, rfl, Option.some.inj hscript, Option.some.inj hextended,
        prefix_of_parse_append (by decide) (by decide) rfl rfl rfl (fun _ => rfl) (by decide) hparse
          hparse'⟩

-- without blank space before the end the `&` is an argument, and before the line an operator
example :
    (parse "Fastfile" [⟨.word "foo", 1, true⟩, ⟨.op (.binary .bitAnd), 1, true⟩,
      ⟨.done, 1, false⟩]).toOption.any
        (sameNodes [⟨.call none "foo" [⟨.blockPass none, 1⟩] false, 1⟩]) = true ∧
    (parse "Fastfile" [⟨.word "foo", 1, true⟩, ⟨.op (.binary .bitAnd), 1, true⟩,
      ⟨.newline, 1, true⟩, ⟨.word "bar", 2, false⟩, ⟨.done, 2, true⟩]).toOption.any
        (sameNodes [⟨.binary .bitAnd ⟨.call none "foo" [] false, 1⟩
          ⟨.call none "bar" [] false, 2⟩, 1⟩]) = true := by
  decide +kernel

end LaneScript
