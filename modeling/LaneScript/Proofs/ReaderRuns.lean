import LaneScript.Grammar.Parse
import LaneScript.Proofs.TreeLines

/-!
# Runs of a reader

A reader is run on a state that stands at some tokens, `State.at`.  The lemmas of the first part say
what each of the small readers does there; a rule of the grammar is then run step by step, by
rewriting with them.

`Yields p s tokens rest Q` says that `p` takes exactly `tokens`, leaves `rest`, changes nothing else
in the state, and returns something with the property `Q`.  Such facts compose along a sequence of
readers, `Yields.bind`, which is how the rules for larger trees are put together from those for
their parts.  A rule asks for a part only behind a token it has taken: `yields_readAt` turns this
into the fact that a bound as great as the number of tokens is enough.
-/

namespace LaneScript

open LaneScript.Parser

/-! ### Running the small readers -/

/-- The state at other tokens. -/
def State.at (s : State) (tokens : List Located) : State := { s with cursor := .ofTokens tokens }

@[simp] theorem State.cursor_at (s : State) (tokens : List Located) :
    (s.at tokens).cursor = .ofTokens tokens := rfl

@[simp] theorem State.at_at (s : State) (tokens others : List Located) :
    (s.at tokens).at others = s.at others := rfl

@[simp] theorem Cursor.ofTokens_cons (first : Located) (others : List Located) :
    Cursor.ofTokens (first :: others) = ⟨first, others⟩ := rfl

section Runs

variable {α β : Type} {s s' : State} {here : Located} {ahead : List Located}

theorem run_eq_ok_iff {p : Parser α} {a : α} : p.run s = .ok (a, s') ↔ p.outcome s = .ok a s' := by
  unfold Parser.run
  cases p.outcome s <;> simp

theorem outcome_bind_of_ok {p : Parser α} {a : α} (h : p.outcome s = .ok a s')
    (f : α → Parser β) : (p >>= f).outcome s = (f a).outcome s' := by
  change EStateM.bind p f s = _
  change p s = _ at h
  rw [EStateM.bind, h]
  rfl

/-- A failure keeps its state, and nothing runs behind it. -/
theorem outcome_bind_of_error {p : Parser α} {failure : Failure}
    (h : p.outcome s = .error failure s') (f : α → Parser β) :
    (p >>= f).outcome s = .error failure s' := by
  change EStateM.bind p f s = _
  change p s = _ at h
  rw [EStateM.bind, h]

theorem outcome_get_bind (f : State → Parser β) : (get >>= f).outcome s = (f s).outcome s := rfl

theorem outcome_modify_bind (g : State → State) (f : Unit → Parser β) :
    (modify g >>= f).outcome s = (f ()).outcome (g s) := rfl

/-- What is done in any case comes behind the result of a reader that ends. -/
theorem outcome_finally_of_ok {p : Parser α} {a : α} (h : p.outcome s = .ok a s')
    (leave : Parser Unit) :
    Parser.outcome (tryFinally p leave) s = Parser.outcome (do leave; return a) s' := by
  change p s = _ at h
  change EStateM.map _ _ s = EStateM.bind leave _ s'
  simp only [EStateM.map, EStateM.bind, tryFinally', h]
  cases leave s' <;> rfl

/-- What is done in any case comes also behind a failure. -/
theorem outcome_finally_of_error {p : Parser α} {failure : Failure}
    (h : p.outcome s = .error failure s') (leave : Parser Unit) :
    Parser.outcome (tryFinally p leave) s =
      Parser.outcome (do leave; throw failure : Parser α) s' := by
  change p s = _ at h
  change EStateM.map _ _ s = EStateM.bind leave _ s'
  simp only [EStateM.map, EStateM.bind, tryFinally', h]
  cases leave s' <;> rfl

theorem Parser.run_bind (p : Parser α) (f : α → Parser β) (s : State) :
    (p >>= f).run s = p.run s >>= fun found => (f found.1).run found.2 := by
  unfold Parser.run
  cases hp : p.outcome s with
  | error failure s' =>
    rw [outcome_bind_of_error hp]
    rfl
  | ok a s' =>
    rw [outcome_bind_of_ok hp]
    rfl

/-- A sequence of two readers goes on where the first one ends. -/
theorem run_bind_ok {p : Parser α} {a : α} (h : p.run s = .ok (a, s')) (f : α → Parser β) :
    (p >>= f).run s = (f a).run s' := by
  rw [run_bind, h]
  rfl

/-- What is left at the end is left before the result is given. -/
theorem run_finally {p : Parser α} {a : α} (h : p.run s = .ok (a, s')) (leave : Parser Unit) :
    Parser.run (tryFinally p leave) s = Parser.run (do leave; return a) s' := by
  unfold Parser.run
  rw [outcome_finally_of_ok (run_eq_ok_iff.1 h)]

/-- A reader that returns something comes to an end. -/
theorem exists_run_of_run' {p : Parser α} {a : α} (h : p.run' s = .ok a) :
    ∃ s', p.run s = .ok (a, s') := by
  unfold Parser.run' at h
  cases hrun : p.run s with
  | error failure =>
    rw [hrun] at h
    cases h
  | ok result =>
    rw [hrun] at h
    cases h
    exact ⟨result.2, rfl⟩

/-- Where a sequence of two readers comes to an end, the first one does. -/
theorem exists_of_run_bind {p : Parser α} {f : α → Parser β} {s'' : State} {b : β}
    (h : (p >>= f).run s = .ok (b, s'')) :
    ∃ a s', p.run s = .ok (a, s') ∧ (f a).run s' = .ok (b, s'') := by
  rw [run_bind] at h
  cases hfirst : p.run s with
  | error failure =>
    rw [hfirst] at h
    cases h
  | ok result =>
    rw [hfirst] at h
    exact ⟨result.1, result.2, rfl, h⟩

theorem run_get_bind (f : State → Parser β) : (get >>= f).run s = (f s).run s := rfl

theorem run_modify_bind (g : State → State) (f : Unit → Parser β) :
    (modify g >>= f).run s = (f ()).run (g s) := rfl

theorem run_current_bind (f : Located → Parser β) :
    (current >>= f).run (s.at (here :: ahead)) = (f here).run (s.at (here :: ahead)) := rfl

theorem run_line_bind (f : Nat → Parser β) :
    (line >>= f).run (s.at (here :: ahead)) = (f here.line).run (s.at (here :: ahead)) := rfl

theorem run_isAt_bind (token : Token) (f : Bool → Parser β) :
    (isAt token >>= f).run (s.at (here :: ahead)) =
      (f (here.token == token)).run (s.at (here :: ahead)) := rfl

theorem run_isAtCallParen_bind (f : Bool → Parser β) :
    (isAtCallParen >>= f).run (s.at (here :: ahead)) =
      (f (here.token == .lparen && !here.spaced)).run (s.at (here :: ahead)) := rfl

theorem run_startsExpression_bind (f : Bool → Parser β) :
    (Parser.startsExpression >>= f).run (s.at (here :: ahead)) =
      (f here.token.startsExpression).run (s.at (here :: ahead)) := rfl

theorem run_startsArgument_bind (f : Bool → Parser β) :
    (Rule.startsArgument >>= f).run s =
      (f (s.cursor.current.startsArgument (s.cursor.peek 1))).run s := rfl

theorem run_peek_bind (offset : Nat) (f : Located → Parser β) :
    (peek offset >>= f).run s = (f (s.cursor.peek offset)).run s := rfl

theorem run_isLocal_bind (name : String) (f : Bool → Parser β) :
    (isLocal name >>= f).run s = (f (Scope.sees name s.scopes)).run s := rfl

theorem run_advance_bind (hne : ahead ≠ []) (f : Unit → Parser β) :
    (advance >>= f).run (s.at (here :: ahead)) = (f ()).run (s.at ahead) := by
  cases ahead with
  | nil => exact absurd rfl hne
  | cons next ahead => rfl

/-- A token that does not stand here is not taken. -/
theorem run_eat_bind_of_ne {token : Token} (h : here.token ≠ token) (f : Bool → Parser β) :
    (eat token >>= f).run (s.at (here :: ahead)) = (f false).run (s.at (here :: ahead)) := by
  have hat : (here.token == token) = false := beq_eq_false_iff_ne.2 h
  refine run_bind_ok ?_ f
  rw [eat, run_isAt_bind, hat]
  rfl

/-- The token that stands here is taken. -/
theorem run_eat_bind_of_eq {token : Token} (h : here.token = token) (hne : ahead ≠ [])
    (f : Bool → Parser β) :
    (eat token >>= f).run (s.at (here :: ahead)) = (f true).run (s.at ahead) := by
  have hat : (here.token == token) = true := beq_iff_eq.2 h
  refine run_bind_ok ?_ f
  rw [eat, run_isAt_bind, hat]
  exact run_advance_bind hne _

theorem run_expect_bind {token : Token} (text : String) (h : here.token = token) (hne : ahead ≠ [])
    (f : Unit → Parser β) :
    (expect token text >>= f).run (s.at (here :: ahead)) = (f ()).run (s.at ahead) := by
  refine run_bind_ok ?_ f
  rw [expect, run_eat_bind_of_eq h hne]
  rfl

theorem Cursor.skip_of_false {skipped : Token → Bool} (h : skipped here.token = false) :
    Cursor.skip skipped ⟨here, ahead⟩ = ⟨here, ahead⟩ := by
  cases ahead with
  | nil => rfl
  | cons next ahead => simp [Cursor.skip, Cursor.skipFrom, h]

theorem Cursor.skip_of_true {skipped : Token → Bool} {next : Located}
    (h : skipped here.token = true) :
    Cursor.skip skipped ⟨here, next :: ahead⟩ = Cursor.skip skipped ⟨next, ahead⟩ := by
  simp [Cursor.skip, Cursor.skipFrom, h]

theorem run_skipNewlines_bind (h : here.token ≠ .newline) (f : Unit → Parser β) :
    (skipNewlines >>= f).run (s.at (here :: ahead)) = (f ()).run (s.at (here :: ahead)) := by
  have hskip : Cursor.skip (· == .newline) ⟨here, ahead⟩ = ⟨here, ahead⟩ :=
    Cursor.skip_of_false (beq_eq_false_iff_ne.2 h)
  show (f ()).run { s with cursor := Cursor.skip (· == .newline) ⟨here, ahead⟩ } = _
  rw [hskip]
  rfl

theorem run_skipTerminators_bind (h : isTerminator here.token = false) (f : Unit → Parser β) :
    (skipTerminators >>= f).run (s.at (here :: ahead)) = (f ()).run (s.at (here :: ahead)) := by
  show (f ()).run { s with cursor := Cursor.skip isTerminator ⟨here, ahead⟩ } = _
  rw [Cursor.skip_of_false h]
  rfl

/-- One line end is passed over. -/
theorem run_skipTerminators_bind_newline {next : Located} (h : here.token = .newline)
    (hnext : isTerminator next.token = false) (f : Unit → Parser β) :
    (skipTerminators >>= f).run (s.at (here :: next :: ahead)) =
      (f ()).run (s.at (next :: ahead)) := by
  have hhere : isTerminator here.token = true := by rw [h]; rfl
  show (f ()).run { s with cursor := Cursor.skip isTerminator ⟨here, next :: ahead⟩ } = _
  rw [Cursor.skip_of_true hhere, Cursor.skip_of_false hnext]
  rfl

end Runs

/-! ### Readers that take given tokens -/

/-- The reader takes exactly the tokens, leaves the rest, changes nothing else in the state, and
returns something with the property. -/
def Yields {α : Type} (p : Parser α) (s : State) (tokens rest : List Located) (Q : α → Prop) :
    Prop :=
  ∃ a, p.run (s.at (tokens ++ rest)) = .ok (a, s.at rest) ∧ Q a

/-- The reader takes exactly the tokens and returns the tree, but for its lines. -/
def Reads (p : Parser Node) (s : State) (tokens rest : List Located) (node : Node) : Prop :=
  Yields p s tokens rest fun found => found.bare = node.bare

/-- The reader takes exactly the tokens and returns the trees, but for their lines. -/
def ReadsAll (p : Parser (List Node)) (s : State) (tokens rest : List Located)
    (nodes : List Node) : Prop :=
  Yields p s tokens rest fun found => bareAll found = bareAll nodes

section Yields

variable {α β : Type} {s : State} {tokens others rest : List Located} {Q : α → Prop} {R : β → Prop}

theorem yields_pure {a : α} (h : Q a) : Yields (pure a) s [] rest Q := ⟨a, rfl, h⟩

/-- Two readers in a sequence take the tokens of both. -/
theorem Yields.bind {p : Parser α} {f : α → Parser β} (hp : Yields p s tokens (others ++ rest) Q)
    (hf : ∀ a, Q a → Yields (f a) s others rest R) :
    Yields (p >>= f) s (tokens ++ others) rest R := by
  obtain ⟨a, hrun, ha⟩ := hp
  obtain ⟨b, hrun', hb⟩ := hf a ha
  refine ⟨b, ?_, hb⟩
  rw [List.append_assoc, run_bind_ok hrun, hrun']

/-- What the first reader takes is all that both take. -/
theorem Yields.bind_left {p : Parser α} {f : α → Parser β} (hp : Yields p s tokens rest Q)
    (hf : ∀ a, Q a → Yields (f a) s [] rest R) : Yields (p >>= f) s tokens rest R := by
  obtain ⟨a, hrun, ha⟩ := hp
  obtain ⟨b, hrun', hb⟩ := hf a ha
  exact ⟨b, (run_bind_ok hrun f).trans hrun', hb⟩

theorem Yields.mono {p : Parser α} {Q' : α → Prop} (h : Yields p s tokens rest Q)
    (hQ : ∀ a, Q a → Q' a) : Yields p s tokens rest Q' := by
  obtain ⟨a, hrun, ha⟩ := h
  exact ⟨a, hrun, hQ a ha⟩

/-- Runs that come to the same yield the same. -/
theorem Yields.of_run_eq {p q : Parser α}
    (h : q.run (s.at (tokens ++ rest)) = p.run (s.at (tokens ++ rest)))
    (hp : Yields p s tokens rest Q) : Yields q s tokens rest Q := by
  obtain ⟨a, hrun, ha⟩ := hp
  exact ⟨a, h.trans hrun, ha⟩

/-- A first token is taken, and the rest is left to what follows. -/
theorem Yields.advance {here : Located} {p : Parser α} (hne : tokens ++ rest ≠ [])
    (h : Yields p s tokens rest Q) :
    Yields (Parser.advance >>= fun _ => p) s (here :: tokens) rest Q := by
  obtain ⟨a, hrun, ha⟩ := h
  refine ⟨a, ?_, ha⟩
  rw [List.cons_append, run_advance_bind hne, hrun]

/-- A given token is taken, and the rest is left to what follows. -/
theorem Yields.eat {here : Located} {token : Token} {f : Bool → Parser α}
    (hhere : here.token = token) (hne : tokens ++ rest ≠ []) (h : Yields (f true) s tokens rest Q) :
    Yields (Parser.eat token >>= f) s (here :: tokens) rest Q := by
  obtain ⟨a, hrun, ha⟩ := h
  refine ⟨a, ?_, ha⟩
  rw [List.cons_append, run_eat_bind_of_eq hhere hne, hrun]

theorem Yields.expect {here : Located} {token : Token} {text : String} {f : Unit → Parser α}
    (hhere : here.token = token) (hne : tokens ++ rest ≠ []) (h : Yields (f ()) s tokens rest Q) :
    Yields (Parser.expect token text >>= f) s (here :: tokens) rest Q := by
  obtain ⟨a, hrun, ha⟩ := h
  refine ⟨a, ?_, ha⟩
  rw [List.cons_append, run_expect_bind text hhere hne, hrun]

/-- One level deeper. -/
theorem Yields.nested {p : Parser α} (hdepth : s.depth < maxNesting)
    (h : Yields p { s with depth := s.depth + 1 } tokens rest Q) :
    Yields (Parser.nested p) s tokens rest Q := by
  obtain ⟨a, hrun, ha⟩ := h
  refine ⟨a, ?_, ha⟩
  have hlevel : ¬ maxNesting ≤ (s.at (tokens ++ rest)).depth := Nat.not_le.2 hdepth
  rw [Parser.nested, run_get_bind, if_neg hlevel]
  beta_reduce
  rw [run_modify_bind]
  exact run_finally hrun _

/-- Where no construct claims a `do`, allowing it changes nothing. -/
theorem Yields.allowingDo {p : Parser α} (hclaims : s.claimsDo = 0)
    (h : Yields p s tokens rest Q) : Yields (Parser.allowingDo p) s tokens rest Q := by
  obtain ⟨a, hrun, ha⟩ := h
  -- The reader sets the count to zero and back, and zero is what it was.
  have hclaimed : ∀ tokens, { s.at tokens with claimsDo := 0 } = s.at tokens := by
    intro tokens
    rw [← hclaims]
    rfl
  refine ⟨a, ?_, ha⟩
  rw [Parser.allowingDo, run_get_bind, run_modify_bind, hclaimed, run_finally hrun,
    run_modify_bind]
  show Except.ok (a, { s.at rest with claimsDo := s.claimsDo }) = _
  rw [hclaims, hclaimed]

/-- In a new scope. -/
theorem Yields.withScope {p : Parser α} {hard : Bool}
    (h : Yields p { s with scopes := .empty hard :: s.scopes } tokens rest Q) :
    Yields (Parser.withScope hard p) s tokens rest Q := by
  obtain ⟨a, hrun, ha⟩ := h
  refine ⟨a, ?_, ha⟩
  rw [Parser.withScope, run_modify_bind]
  exact run_finally hrun _

/-- A bound above the number of tokens is enough for a rule that needs one as great. -/
theorem yields_readAt {n : Nonterminal} {bound : Nat} {Q : n.Tree → Prop}
    (h : ∀ bound, (tokens ++ rest).length ≤ bound →
      Yields (Rule.of (readAt bound) n) s tokens rest Q)
    (hbound : (tokens ++ rest).length < bound) : Yields (readAt bound n) s tokens rest Q := by
  cases bound with
  | zero => exact absurd hbound (Nat.not_lt_zero _)
  -- One request is spent on the nonterminal itself.
  | succ bound => exact h bound (Nat.le_of_lt_succ hbound)

end Yields

/-! ### States that read plain trees -/

/-- Nothing around claims a `do` or a `|`, and no local variable is in scope. -/
structure State.Calm (s : State) : Prop where
  claims : s.claimsDo = 0
  pipe : s.pipeCloses = false
  locals : ∀ name, Scope.sees name s.scopes = false

theorem State.Calm.deeper {s : State} (h : s.Calm) : { s with depth := s.depth + 1 }.Calm :=
  ⟨h.claims, h.pipe, h.locals⟩

theorem State.Calm.inBlock {s : State} (h : s.Calm) :
    { s with scopes := .empty false :: s.scopes }.Calm := by
  refine ⟨h.claims, h.pipe, fun name => ?_⟩
  simp [Scope.sees, Scope.empty, h.locals name]

/-- A script starts with no variables and nothing to be closed. -/
theorem calm_start (file : String) (tokens : List Located) (depth : Nat) :
    (State.start file tokens [.empty true] depth).Calm :=
  ⟨rfl, rfl, fun name => by simp [State.start, Scope.sees, Scope.empty]⟩

end LaneScript
