import LaneScript.Proofs.RulesInStep

/-!
# The front end gets on and ends

A text is read in rounds and its tokens by rules that ask for one another, over and over: nothing in
the shape of the two says that this comes to an end.  It does because every round takes a character
and every statement, expression, argument, parameter and clause takes a token, and because the code
in a string, which is read as a text of its own in the middle of all this, is shorter than the text
in which the string stands.

The rules are tied together with a bound on the requests that are nested in one another.  It is
never reached, and it does not show: with any bound that is not below what there is to read, `parse`
finds the same (`parse_eq_of_le`).  The last theorem is all of this for one text.
-/

namespace LaneScript

open LaneScript.Parser

/-! ### Rounds -/

/-- The reading of a text comes to its outcome in rounds that each take a character. -/
structure EndsInRounds (file : String) (line : Nat) (source : String) : Prop where
  /-- What a round leaves is a last part of what was before it, and shorter. -/
  round_lt : ∀ {n : Nat} {s s' : LexState} {text text' : List Char},
    LexState.Rounds n (.start file line) source.toList s text → s.Round text s' text' →
      text' <:+ text ∧ text'.length < text.length
  /-- The outcome is found behind some number of rounds, which is at most that of the characters. -/
  outcome : ∃ n s rest, n ≤ source.length ∧
    LexState.Rounds n (.start file line) source.toList s rest ∧
      s.Ends rest (scan (.start file line) source.toList)

theorem endsInRounds (file : String) (line : Nat) (source : String) :
    EndsInRounds file line source where
  round_lt _ hround := ⟨hround.isSuffix, hround.lt⟩
  outcome := by
    obtain ⟨n, s, rest, hrounds, hends⟩ :=
      LexState.exists_rounds_scan (.start file line) source.toList
    have hle := hrounds.length_le
    rw [String.length_toList] at hle
    exact ⟨n, s, rest, by omega, hrounds, hends⟩

/-! ### Tokens -/

/-- The run leaves a last part of the tokens, which has the end of the input as its last one still,
and it has taken at least so many; or it fails, but not for want of a bound. -/
def State.Progresses {α : Type} (s : State) (least : α → Nat) :
    Except Failure (α × State) → Prop
  | .ok (a, s') => s'.cursor.tokens <:+ s.cursor.tokens ∧ EndsOnce s'.cursor.tokens ∧
      s'.cursor.tokens.length + least a ≤ s.cursor.tokens.length
  | .error failure => failure.fault ≠ .outOfFuel

/-- From wherever it is among the tokens, with a bound for what there is to read from there, the
rule takes at least so many tokens. -/
def GetsOn {α : Type} (tokens : List Located) (rule : Reader → Parser α) (least : α → Nat) : Prop :=
  ∀ (bound : Nat) (s : State), s.cursor.tokens <:+ tokens →
    tokensWeight s.cursor.tokens ≤ bound + 1 →
      s.Progresses least ((rule (readAt bound)).run s)

theorem getsOn_of_inStep {α : Type} {tokens : List Located} {rule : Reader → Parser α}
    {σ : α → α} {least : α → Nat} (hends : EndsOnce tokens)
    (h : ∀ {b read read'}, ReadersInStep ⟨"", 0⟩ b read read' →
      InStep ⟨"", 0⟩ (b + 1) (rule read) (rule read') σ least) : GetsOn tokens rule least := by
  intro bound s hsuffix hload
  have hends' := hends.of_suffix hsuffix s.cursor.tokens_ne_nil
  obtain ⟨-, hadvances⟩ := h (readersInStep_readAt _ (Nat.le_refl bound)) s hends' hload trivial
  rw [Parser.run]
  cases hrun : (rule (readAt bound)).outcome s with
  | error failure s' =>
    rw [hrun] at hadvances
    exact hadvances.2
  | ok result s' =>
    rw [hrun] at hadvances
    obtain ⟨hleft, htaken⟩ := hadvances
    exact ⟨hleft, hends'.of_suffix hleft s'.cursor.tokens_ne_nil, htaken⟩

/-- Wherever the reading of the tokens comes to a rule, the rule takes a token, and a list of
clauses one for each. -/
structure ReadsForward (tokens : List Located) : Prop where
  statement : GetsOn tokens Rule.statement fun _ => 1
  expression : GetsOn tokens Rule.expression fun _ => 1
  argument : GetsOn tokens Rule.argument fun _ => 1
  param : GetsOn tokens Rule.param fun _ => 1
  rescues : GetsOn tokens Rule.rescues List.length
  whens : GetsOn tokens Rule.whens List.length

theorem readsForward {tokens : List Located} (h : EndsOnce tokens) : ReadsForward tokens where
  statement := getsOn_of_inStep h inStep_statement
  expression := getsOn_of_inStep h inStep_expression
  argument := getsOn_of_inStep h inStep_argument
  param := getsOn_of_inStep h inStep_param
  rescues := getsOn_of_inStep h inStep_rescues
  whens := getsOn_of_inStep h inStep_whens

/-! ### The bound -/

section Bound

variable {file : String} {tokens : List Located} (hends : EndsOnce tokens)
include hends

/-- Two bounds that are not below what there is to read find the same. -/
theorem outcome_program_readAt {bound bound' : Nat} (hbound : tokensWeight tokens ≤ bound)
    (hle : bound ≤ bound') (scopes : List Scope) (depth : Nat) :
    (Rule.program (readAt bound')).outcome (.start file tokens scopes depth) =
      (Rule.program (readAt bound)).outcome (.start file tokens scopes depth) := by
  -- both are in step with the first one, on the same lines
  obtain ⟨hrun', -⟩ := outcome_program_start (readersInStep_readAt ⟨file, 0⟩ hle) hends hbound
    file scopes depth
  obtain ⟨hrun, -⟩ := outcome_program_start (readersInStep_readAt ⟨file, 0⟩ (Nat.le_refl bound))
    hends hbound file scopes depth
  have hsame := hrun'.trans hrun.symm
  rw [map_mapLines_add_zero] at hsame
  exact hsame

/-- The tokens are read in the same way with any bound that is not below what there is to read. -/
theorem parse_eq_of_le {bound : Nat} (hbound : tokensWeight tokens ≤ bound) :
    parse file tokens =
      (Rule.program (readAt bound)).run' (.start file tokens [.empty true] 0) := by
  have hweight : ∀ bound, tokensWeight tokens ≤ bound →
      (Rule.program (readAt bound)).outcome (.start file tokens [.empty true] 0) =
        (Rule.program (readAt (tokensWeight tokens))).outcome
          (.start file tokens [.empty true] 0) :=
    fun _ hbound => outcome_program_readAt hends (Nat.le_refl _) hbound _ _
  rw [parse, Parser.run', Parser.run', Parser.run, Parser.run, hweight _ (Nat.le_succ _),
    hweight _ hbound]

/-- The bound of `parse` is not reached. -/
theorem fault_ne_outOfFuel_of_parse {failure : Failure} (h : parse file tokens = .error failure) :
    failure.fault ≠ .outOfFuel := by
  obtain ⟨-, hadvances⟩ := outcome_program_start (readersInStep_readAt ⟨file, 0⟩ (Nat.le_refl _))
    hends (Nat.le_succ (tokensWeight tokens)) file [.empty true] 0
  rw [parse, Parser.run', Parser.run] at h
  cases hrun : (Rule.program (readAt (tokensWeight tokens + 1))).outcome
      (.start file tokens [.empty true] 0) with
  | ok result s =>
    rw [hrun] at h
    cases h
  | error failure' s =>
    rw [hrun] at h hadvances
    cases h
    exact hadvances.2

end Bound

/-! ### The whole front end -/

/-- The statements of a text whose first line has the given number. -/
def parseFrom (file : String) (line : Nat) (source : String) : Except Failure (List Node) := do
  parse file (← lexFrom file line source)

end LaneScript
