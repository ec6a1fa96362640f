import LaneScript.Proofs.StateDiscipline
import LaneScript.Proofs.TokenLines

/-!
# Two readers in step

Two readers of the same script may differ in how many requests they allow to be nested in one
another, and for the second one the script may stand on other lines of another file.  `InStep` says
that neither can be told from what is read: the second reader does in the other place what the first
one does, and it leaves the same state behind, also where it fails.

It also says how the first one gets on, because that is why the bound does not matter.  Among the
tokens before it, of which the end of the input is the last (`EndsOnce`), it only goes forward; it
takes at least as many of them as `least` tells for what it returns; and it does not fail for want
of a bound.  All this is asked only of states in which there is no more to read than `limit`.  A
rule of the grammar may be at a state with one more to read than its reader is good for, and then
has to take a token before it asks the reader: this is what `InStepAt.bind_behind` and
`InStepAt.eat_behind` are about.

`InStepAt P` is the same for states whose current token has the property `P`.  A rule looks at the
current token and then takes it, so what it saw has to be kept for the readers between.
-/

namespace LaneScript

open LaneScript.Parser
open List

variable {token : Token}

/-! ### Tokens to the end of the input -/

/-- What is left of the tokens ends in the same way. -/
theorem EndsOnce.of_suffix {tokens others : List Located} (h : EndsOnce tokens)
    (hsuffix : others <:+ tokens) (hne : others ≠ []) : EndsOnce others := by
  obtain ⟨before, last, rfl, hlast, hbefore⟩ := h
  obtain ⟨taken, htaken⟩ := hsuffix
  obtain ⟨front, final, rfl⟩ := (eq_nil_or_concat' others).resolve_left hne
  rw [← List.append_assoc] at htaken
  obtain ⟨rfl, heq⟩ := append_inj' htaken rfl
  cases heq
  exact ⟨front, last, rfl, hlast, fun here hhere => hbefore here (mem_append_right _ hhere)⟩

theorem EndsOnce.ne_nil {tokens : List Located} (h : EndsOnce tokens) : tokens ≠ [] := by
  obtain ⟨before, last, rfl, -⟩ := h
  exact append_ne_nil_of_right_ne_nil _ (cons_ne_nil _ _)

/-- Only the end of the input is the last token. -/
theorem EndsOnce.ahead_ne_nil {here : Located} {ahead : List Located}
    (h : EndsOnce (here :: ahead)) (hhere : here.token ≠ .done) : ahead ≠ [] := by
  rintro rfl
  obtain ⟨before, last, heq, hlast, -⟩ := h
  cases before with
  | nil =>
    cases heq
    exact hhere hlast
  | cons first others => cases append_eq_nil_iff.1 (List.cons.inj heq).2.symm |>.2

/-- The tokens that were taken had each something to read. -/
theorem tokensWeight_add_length_le {tokens others : List Located} (h : others <:+ tokens) :
    tokensWeight others + tokens.length ≤ tokensWeight tokens + others.length := by
  have hlength : ∀ taken : List Located, taken.length ≤ tokensWeight taken := by
    intro taken
    induction taken with
    | nil => exact Nat.le_refl _
    | cons here taken ih =>
      have hpos := here.token.weight_pos
      rw [length_cons, tokensWeight_cons]
      omega
  obtain ⟨taken, rfl⟩ := h
  have htaken := hlength taken
  rw [tokensWeight_append, length_append]
  omega

/-! ### States on other lines -/

namespace Cursor

/-- The place with the lines of its tokens changed. -/
def mapLines (f : Nat → Nat) (cursor : Cursor) : Cursor :=
  ⟨cursor.current.mapLines f, cursor.ahead.map (·.mapLines f)⟩

variable (f : Nat → Nat) (cursor : Cursor)

/-- The cursor is always on a token. -/
theorem tokens_ne_nil : cursor.tokens ≠ [] := cons_ne_nil _ _

/-- A look ahead sees the token on its other line. -/
theorem peek_mapLines (offset : Nat) :
    (cursor.mapLines f).peek offset = (cursor.peek offset).mapLines f := by
  have hlast : (cursor.mapLines f).last = cursor.last.mapLines f := by
    unfold last mapLines
    rw [getLast?_map]
    cases cursor.ahead.getLast? <;> rfl
  cases offset with
  | zero => rfl
  | succ offset =>
    change (cursor.ahead.map _)[offset]?.getD (cursor.mapLines f).last =
      (cursor.ahead[offset]?.getD cursor.last).mapLines f
    rw [hlast, getElem?_map]
    cases cursor.ahead[offset]? <;> rfl

theorem advance_mapLines : (cursor.mapLines f).advance = cursor.advance.mapLines f := by
  obtain ⟨current, ahead⟩ := cursor
  cases ahead <;> rfl

/-- The same tokens are skipped if the choice does not look at lines. -/
theorem skip_mapLines {skipped : Token → Bool}
    (h : ∀ token : Token, skipped (token.mapLines f) = skipped token) :
    (cursor.mapLines f).skip skipped = (cursor.skip skipped).mapLines f := by
  obtain ⟨current, ahead⟩ := cursor
  change skipFrom skipped (current.mapLines f) (ahead.map _) =
    (skipFrom skipped current ahead).mapLines f
  induction ahead generalizing current with
  | nil => rfl
  | cons next others ih =>
    rw [map_cons, skipFrom, skipFrom, ih]
    change (if skipped (current.token.mapLines f) then _ else _) = _
    rw [h]
    split <;> rfl

/-- The same literals stand side by side. -/
theorem strings_mapLines :
    (cursor.mapLines f).strings =
      (cursor.strings.1.map (List.map (·.mapLines f)), cursor.strings.2.mapLines f) := by
  obtain ⟨current, ahead⟩ := cursor
  change stringsFrom (current.mapLines f) (ahead.map _) =
    ((stringsFrom current ahead).1.map _, (stringsFrom current ahead).2.mapLines f)
  induction ahead generalizing current with
  | nil => rfl
  | cons next others ih =>
    obtain ⟨token, line, spaced⟩ := current
    cases token with
    | str parts =>
      change (parts.map _ :: (stringsFrom (next.mapLines f) (others.map _)).1,
        (stringsFrom (next.mapLines f) (others.map _)).2) = _
      rw [ih]
      rfl
    | _ => rfl

/-- A token that is not the end of the input can be taken. -/
theorem length_tokens_advance (hends : EndsOnce cursor.tokens)
    (hcurrent : cursor.current.token ≠ .done) :
    cursor.advance.tokens.length + 1 = cursor.tokens.length := by
  obtain ⟨current, ahead⟩ := cursor
  cases ahead with
  | nil => exact absurd rfl (hends.ahead_ne_nil hcurrent)
  | cons next others => rfl

end Cursor

/-- The state in the other place. -/
def State.moved (m : Move) (s : State) : State :=
  { s with file := m.file, cursor := s.cursor.mapLines m.line }

theorem State.tokens_start (file : String) {tokens : List Located} (h : tokens ≠ [])
    (scopes : List Scope) (depth : Nat) :
    (State.start file tokens scopes depth).cursor.tokens = tokens := by
  cases tokens with
  | nil => exact absurd rfl h
  | cons first others => rfl

/-- A run that starts elsewhere starts in the moved state. -/
theorem State.start_moved (m : Move) (file : String) {tokens : List Located} (h : tokens ≠ [])
    (scopes : List Scope) (depth : Nat) :
    State.start m.file (tokens.map (·.mapLines m.line)) scopes depth =
      (State.start file tokens scopes depth).moved m := by
  cases tokens with
  | nil => exact absurd rfl h
  | cons first others => rfl

/-! ### The outcome of a run -/

/-- The outcome in the other place: what is returned is changed by `σ`. -/
def mapOutcome {α β : Type} (m : Move) (σ : α → β) :
    EStateM.Result Failure State α → EStateM.Result Failure State β
  | .ok a s => .ok (σ a) (s.moved m)
  | .error failure s => .error (failure.moved m) (s.moved m)

/-- The run goes forward in the tokens, by at least so many if it comes to an end, and does not fail
for want of a bound. -/
def State.Advances {α : Type} (s : State) (least : α → Nat) :
    EStateM.Result Failure State α → Prop
  | .ok a s' => s'.cursor.tokens <:+ s.cursor.tokens ∧
      s'.cursor.tokens.length + least a ≤ s.cursor.tokens.length
  | .error failure s' => s'.cursor.tokens <:+ s.cursor.tokens ∧ failure.fault ≠ .outOfFuel

/-- What a run takes counts with what was taken before it. -/
theorem State.Advances.behind {α : Type} {s s' : State} {taken : Nat} {least : α → Nat}
    {outcome : EStateM.Result Failure State α}
    (h : s'.Advances (fun a => least a - taken) outcome)
    (hsuffix : s'.cursor.tokens <:+ s.cursor.tokens)
    (hlength : s'.cursor.tokens.length + taken ≤ s.cursor.tokens.length) :
    s.Advances least outcome := by
  cases outcome with
  | error failure s'' => exact ⟨h.1.trans hsuffix, h.2⟩
  | ok a s'' =>
    obtain ⟨hsuffix', hlength'⟩ := h
    dsimp only at hlength'
    exact ⟨hsuffix'.trans hsuffix, by omega⟩

/-- From every state whose current token has the property, with no more to read than the limit: the
second reader does in the other place what the first one does, and the first one goes forward by at
least so many tokens. -/
def InStepAt {α β : Type} (P : Located → Prop) (m : Move) (limit : Nat) (p : Parser α)
    (q : Parser β) (σ : α → β) (least : α → Nat := fun _ => 0) : Prop :=
  ∀ s : State, EndsOnce s.cursor.tokens → tokensWeight s.cursor.tokens ≤ limit →
    P s.cursor.current →
      q.outcome (s.moved m) = mapOutcome m σ (p.outcome s) ∧ s.Advances least (p.outcome s)

/-- The second reader does in the other place what the first one does, whatever the current
token. -/
abbrev InStep {α β : Type} (m : Move) (limit : Nat) (p : Parser α) (q : Parser β) (σ : α → β)
    (least : α → Nat := fun _ => 0) : Prop :=
  InStepAt (fun _ => True) m limit p q σ least

section InStep

variable {α β α' β' : Type} {P : Located → Prop} {m : Move} {limit : Nat}
variable {p : Parser α} {p' : Parser α'} {f : α → Parser β} {f' : α' → Parser β'}
variable {σ : α → α'} {τ : β → β'} {taken : α → Nat} {least : β → Nat}

/-- Less may be known of the current token. -/
theorem InStepAt.weaken {P' : Located → Prop} (h : InStepAt P m limit p p' σ taken)
    (hP : ∀ here, P' here → P here) : InStepAt P' m limit p p' σ taken :=
  fun s hends hlimit hP' => h s hends hlimit (hP _ hP')

/-- What is known of the current token need not be used. -/
theorem InStep.here (h : InStep m limit p p' σ taken) : InStepAt P m limit p p' σ taken :=
  h.weaken fun _ _ => trivial

/-- Where there is less to read than the limit, the reader is good too. -/
theorem InStepAt.within (h : InStepAt P m (limit + 1) p p' σ taken) :
    InStepAt P m limit p p' σ taken :=
  fun s hends hlimit => h s hends (Nat.le_succ_of_le hlimit)

/-- What takes no token may promise none. -/
theorem inStep_pure {a : α} {a' : α'} (h : a' = σ a) (htaken : taken a = 0) :
    InStepAt P m limit (pure a) (pure a') σ taken := by
  subst h
  intro s _ _ _
  refine ⟨rfl, suffix_refl _, ?_⟩
  rw [htaken]
  exact Nat.le_refl _

/-- The second of two readers may rely on what the first one has taken. -/
theorem InStepAt.bindAt {limit' : Nat} (hp : InStepAt P m limit p p' σ taken)
    (hlimit : ∀ a, limit ≤ limit' + taken a)
    (hf : ∀ a, InStep m limit' (f a) (f' (σ a)) τ fun b => least b - taken a) :
    InStepAt P m limit (p >>= f) (p' >>= f') τ least := by
  intro s hends hload hP
  obtain ⟨hrun, hadvances⟩ := hp s hends hload hP
  cases hresult : p.outcome s with
  | error failure s' =>
    rw [hresult] at hrun hadvances
    rw [outcome_bind_of_error hrun, outcome_bind_of_error hresult]
    exact ⟨rfl, hadvances⟩
  | ok a s' =>
    rw [hresult] at hrun hadvances
    rw [outcome_bind_of_ok hrun, outcome_bind_of_ok hresult]
    obtain ⟨hsuffix, hlength⟩ := hadvances
    -- every token weighs something, so what was taken makes up for the lower limit
    have hload' : tokensWeight s'.cursor.tokens ≤ limit' := by
      have hweight := tokensWeight_add_length_le hsuffix
      have hle := hlimit a
      omega
    obtain ⟨hrun', hadvances'⟩ :=
      hf a s' (hends.of_suffix hsuffix s'.cursor.tokens_ne_nil) hload' trivial
    exact ⟨hrun', hadvances'.behind hsuffix hlength⟩

/-- The second reader has to take what the first has left of the promise. -/
theorem InStepAt.bind (hp : InStepAt P m limit p p' σ taken)
    (hf : ∀ a, InStep m limit (f a) (f' (σ a)) τ fun b => least b - taken a) :
    InStepAt P m limit (p >>= f) (p' >>= f') τ least :=
  hp.bindAt (fun _ => Nat.le_add_right _ _) hf

/-- Behind a reader that takes a token there is less to read. -/
theorem InStepAt.bind_behind (hp : InStepAt P m (limit + 1) p p' σ taken)
    (htaken : ∀ a, 0 < taken a)
    (hf : ∀ a, InStep m limit (f a) (f' (σ a)) τ fun b => least b - taken a) :
    InStepAt P m (limit + 1) (p >>= f) (p' >>= f') τ least :=
  hp.bindAt (fun a => Nat.add_le_add_left (htaken a) _) hf

theorem InStep.bind (hp : InStep m limit p p' σ taken)
    (hf : ∀ a, InStep m limit (f a) (f' (σ a)) τ fun b => least b - taken a) :
    InStepAt P m limit (p >>= f) (p' >>= f') τ least :=
  hp.here.bind hf

/-- Behind a token that is taken the rest is within a smaller limit. -/
theorem InStep.bind_behind (hp : InStep m (limit + 1) p p' σ taken) (htaken : ∀ a, 0 < taken a)
    (hf : ∀ a, InStep m limit (f a) (f' (σ a)) τ fun b => least b - taken a) :
    InStepAt P m (limit + 1) (p >>= f) (p' >>= f') τ least :=
  hp.here.bind_behind htaken hf

/-- What is read is put into something greater, which tells of no more tokens. -/
theorem InStep.map {g : α → β} {g' : α' → β'} (hp : InStep m limit p p' σ taken)
    (hg : ∀ a, g' (σ a) = τ (g a)) (hleast : ∀ a, least (g a) ≤ taken a) :
    InStepAt P m limit (p >>= fun a => pure (g a)) (p' >>= fun a => pure (g' a)) τ least :=
  hp.bind fun a => inStep_pure (hg a) (Nat.sub_eq_zero_of_le (hleast a))

/-- Both runs take the same branch. -/
theorem InStepAt.ite {c c' : Prop} [Decidable c] [Decidable c'] {one other : Parser β}
    {one' other' : Parser β'} (hc : c' ↔ c) (hone : c → InStepAt P m limit one one' τ least)
    (hother : ¬ c → InStepAt P m limit other other' τ least) :
    InStepAt P m limit (if c then one else other) (if c' then one' else other') τ least := by
  by_cases h : c
  · rw [if_pos h, if_pos (hc.2 h)]
    exact hone h
  · rw [if_neg h, if_neg (mt hc.1 h)]
    exact hother h

theorem InStepAt.ite_bool {c c' : Bool} {one other : Parser β} {one' other' : Parser β'}
    (hc : c' = c) (hone : InStepAt P m limit one one' τ least)
    (hother : InStepAt P m limit other other' τ least) :
    InStepAt P m limit (if c = true then one else other) (if c' = true then one' else other') τ
      least :=
  .ite (hc ▸ Iff.rfl) (fun _ => hone) fun _ => hother

/-! ### Looks -/

/-- A reader that only looks keeps the place. -/
theorem InStepAt.look_bind {look : Parser α} {look' : Parser α'} {g : State → α}
    (hlook : ∀ s, look.outcome s = .ok (g s) s)
    (hlook' : ∀ s, look'.outcome (s.moved m) = .ok (σ (g s)) (s.moved m))
    (hf : ∀ s, P s.cursor.current → InStepAt P m limit (f (g s)) (f' (σ (g s))) τ least) :
    InStepAt P m limit (look >>= f) (look' >>= f') τ least := by
  intro s hends hload hP
  rw [outcome_bind_of_ok (hlook s), outcome_bind_of_ok (hlook' s)]
  exact hf s hP s hends hload hP

/-- A look at the state changes nothing. -/
theorem InStepAt.get_bind {f : State → Parser β} {f' : State → Parser β'}
    (hf : ∀ s, P s.cursor.current →
      InStepAt P m limit (f s) (f' (s.moved m)) τ least) :
    InStepAt P m limit (get >>= f) (get >>= f') τ least :=
  .look_bind (σ := State.moved m) (g := id) (fun _ => rfl) (fun _ => rfl) hf

/-- The current token is the one that was looked at. -/
theorem InStepAt.current_bind {f : Located → Parser β} {f' : Located → Parser β'}
    (hf : ∀ here, P here → here.token.weight ≤ limit →
      InStepAt (· = here) m limit (f here) (f' (here.mapLines m.line)) τ least) :
    InStepAt P m limit (current >>= f) (current >>= f') τ least := by
  intro s hends hload hP
  have hweight := weight_le_tokensWeight (mem_cons_self : s.cursor.current ∈ s.cursor.tokens)
  exact hf s.cursor.current hP (hweight.trans hload) s hends hload rfl

theorem InStepAt.peek_bind {f : Located → Parser β} {f' : Located → Parser β'} (offset : Nat)
    (hf : ∀ here : Located, InStepAt P m limit (f here) (f' (here.mapLines m.line)) τ least) :
    InStepAt P m limit (peek offset >>= f) (peek offset >>= f') τ least :=
  .look_bind (σ := Located.mapLines m.line) (g := fun s => s.cursor.peek offset) (fun _ => rfl)
    (fun s => congrArg (fun here => EStateM.Result.ok here (s.moved m))
      (s.cursor.peek_mapLines _ offset)) fun _ _ => hf _

/-- The line of the current token is the one thing that differs. -/
theorem InStepAt.line_bind {f : Nat → Parser β} {f' : Nat → Parser β'}
    (hf : ∀ line, InStepAt P m limit (f line) (f' (m.line line)) τ least) :
    InStepAt P m limit (line >>= f) (line >>= f') τ least :=
  .look_bind (σ := m.line) (g := fun s => s.cursor.current.line) (fun _ => rfl) (fun _ => rfl)
    fun _ _ => hf _

/-- A look at the current token that does not see the lines of its code. -/
theorem InStepAt.test_bind (test : Located → α) {look : Parser α} {f : α → Parser β}
    {f' : α → Parser β'} (hlook : ∀ s, look.outcome s = .ok (test s.cursor.current) s)
    (htest : ∀ here : Located, test (here.mapLines m.line) = test here)
    (hf : ∀ a, InStepAt P m limit (f a) (f' a) τ least) :
    InStepAt P m limit (look >>= f) (look >>= f') τ least :=
  .look_bind (σ := id) (g := fun s => test s.cursor.current) hlook
    (fun s => (hlook _).trans
      (congrArg (fun a => EStateM.Result.ok a (s.moved m)) (htest s.cursor.current)))
    fun _ _ => hf _

/-- A token without code is told from others on all lines. -/
theorem Token.beq_mapLines (h : token.isPlain = true) (f : Nat → Nat) (other : Token) :
    (other.mapLines f == token) = (other == token) := by
  cases other with
  | str parts => cases token <;> first | rfl | cases h
  | command parts => cases token <;> first | rfl | cases h
  | _ => rfl

theorem Token.bne_done_mapLines (f : Nat → Nat) (token : Token) :
    (token.mapLines f != .done) = (token != .done) := by
  cases token <;> rfl

theorem InStepAt.isAt_bind {f : Bool → Parser β} {f' : Bool → Parser β'} (h : token.isPlain = true)
    (hf : ∀ found, InStepAt P m limit (f found) (f' found) τ least) :
    InStepAt P m limit (isAt token >>= f) (isAt token >>= f') τ least :=
  .test_bind (fun here => here.token == token) (fun _ => rfl)
    (fun here => Token.beq_mapLines h _ here.token) hf

theorem InStepAt.isAtCallParen_bind {f : Bool → Parser β} {f' : Bool → Parser β'}
    (hf : ∀ found, InStepAt P m limit (f found) (f' found) τ least) :
    InStepAt P m limit (isAtCallParen >>= f) (isAtCallParen >>= f') τ least :=
  .test_bind (fun here => here.token == .lparen && !here.spaced) (fun _ => rfl)
    (fun here => congrArg (· && !here.spaced) (Token.beq_mapLines rfl _ here.token)) hf

@[simp] theorem Token.startsExpression_mapLines (f : Nat → Nat) (token : Token) :
    (token.mapLines f).startsExpression = token.startsExpression := by
  cases token <;> rfl

theorem InStepAt.startsExpression_bind {f : Bool → Parser β} {f' : Bool → Parser β'}
    (hf : ∀ found, InStepAt P m limit (f found) (f' found) τ least) :
    InStepAt P m limit (Parser.startsExpression >>= f) (Parser.startsExpression >>= f') τ least :=
  .test_bind (fun here => here.token.startsExpression) (fun _ => rfl)
    (fun here => here.token.startsExpression_mapLines _) hf

/-- The names that are known do not depend on lines. -/
theorem InStepAt.isLocal_bind {f : Bool → Parser β} {f' : Bool → Parser β'} (name : String)
    (hf : ∀ found, InStepAt P m limit (f found) (f' found) τ least) :
    InStepAt P m limit (isLocal name >>= f) (isLocal name >>= f') τ least :=
  .look_bind (σ := id) (g := fun s => Scope.sees name s.scopes) (fun _ => rfl) (fun _ => rfl)
    fun _ _ => hf _

/-! ### Failures -/

/-- A failure is moved with its line; the bound of the recursion is none. -/
theorem inStep_fail {fault : Fault} (h : fault ≠ .outOfFuel) :
    InStepAt P m limit (fail fault : Parser α) (fail (fault.mapLines m.line)) σ taken :=
  fun _ _ _ _ => ⟨rfl, suffix_refl _, h⟩

/-- The failure is on the line of the current token. -/
theorem inStep_unexpected : InStepAt P m limit (unexpected : Parser α) unexpected σ taken :=
  fun _ _ _ _ => ⟨rfl, suffix_refl _, Fault.noConfusion⟩

theorem inStep_expected (what : Expectation) :
    InStepAt P m limit (expected what : Parser α) (expected what) σ taken :=
  fun _ _ _ _ => ⟨rfl, suffix_refl _, Fault.noConfusion⟩

/-- Nothing comes behind a failure. -/
theorem InStepAt.fail_bind {fault : Fault} (h : fault ≠ .outOfFuel) :
    InStepAt P m limit ((fail fault : Parser α) >>= f)
      ((fail (fault.mapLines m.line) : Parser α') >>= f') τ least :=
  fun _ _ _ _ => ⟨rfl, suffix_refl _, h⟩

theorem InStepAt.unexpected_bind :
    InStepAt P m limit ((unexpected : Parser α) >>= f) ((unexpected : Parser α') >>= f') τ least :=
  fun _ _ _ _ => ⟨rfl, suffix_refl _, Fault.noConfusion⟩

theorem InStepAt.expected_bind (what : Expectation) :
    InStepAt P m limit ((expected what : Parser α) >>= f) ((expected what : Parser α') >>= f') τ
      least :=
  fun _ _ _ _ => ⟨rfl, suffix_refl _, Fault.noConfusion⟩

/-! ### Moves -/

/-- The place moves forward, in the same way on all lines. -/
theorem inStep_move {g : Cursor → Cursor} (h : ∀ cursor, (g cursor).tokens <:+ cursor.tokens)
    (hlines : ∀ cursor : Cursor, g (cursor.mapLines m.line) = (g cursor).mapLines m.line) :
    InStep m limit (modify fun s => { s with cursor := g s.cursor } : Parser Unit)
      (modify fun s => { s with cursor := g s.cursor }) id := by
  intro s _ _ _
  refine ⟨?_, h s.cursor, (h s.cursor).length_le⟩
  exact congrArg (fun cursor => EStateM.Result.ok () { s with file := m.file, cursor })
    (hlines s.cursor)

theorem inStep_skipNewlines : InStep m limit skipNewlines skipNewlines id :=
  inStep_move (Cursor.tokens_skip _) fun cursor =>
    cursor.skip_mapLines _ fun token => Token.beq_mapLines rfl _ token

@[simp] theorem isTerminator_mapLines (f : Nat → Nat) (token : Token) :
    isTerminator (token.mapLines f) = isTerminator token := by
  cases token <;> rfl

theorem inStep_skipTerminators : InStep m limit skipTerminators skipTerminators id :=
  inStep_move (Cursor.tokens_skip _) fun cursor =>
    cursor.skip_mapLines _ (isTerminator_mapLines _)

/-- The last token is not taken, so no step forward is promised. -/
theorem inStep_advance : InStep m limit advance advance id :=
  inStep_move Cursor.tokens_advance (Cursor.advance_mapLines _)

/-- Every token but the end of the input is taken. -/
theorem inStepAt_advance (h : ∀ here, P here → here.token ≠ .done) :
    InStepAt P m limit advance advance id fun _ => 1 := by
  intro s hends hload hP
  obtain ⟨hrun, hsuffix, -⟩ := inStep_advance (m := m) s hends hload trivial
  exact ⟨hrun, hsuffix, Nat.le_of_eq (s.cursor.length_tokens_advance hends (h _ hP))⟩

theorem ne_done_of_eq {here : Located} (h : here.token ≠ .done) :
    ∀ other, other = here → other.token ≠ .done := by
  rintro _ rfl
  exact h

/-- Takes the token that was looked at. -/
theorem InStepAt.advance_behind {f : Unit → Parser β} {f' : Unit → Parser β'}
    (h : ∀ here, P here → here.token ≠ .done)
    (hf : InStep m limit (f ()) (f' ()) τ fun b => least b - 1) :
    InStepAt P m (limit + 1) (advance >>= f) (advance >>= f') τ least :=
  (inStepAt_advance h).bind_behind (fun _ => Nat.one_pos) fun _ => hf

/-- A token is taken unless it is the last. -/
theorem inStep_next :
    InStep m limit next next (Token.mapLines m.line)
      fun token => if token = .done then 0 else 1 := by
  refine .current_bind fun here _ _ => ?_
  -- at the end of the input the place does not move
  by_cases hdone : here.token = .done
  · refine inStep_advance.bind fun _ => inStep_pure rfl ?_
    rw [if_pos hdone]
  · refine (inStepAt_advance (ne_done_of_eq hdone)).bind fun _ => inStep_pure rfl ?_
    rw [if_neg hdone]

/-- The token is taken if it is the one asked for. -/
theorem outcome_eat (token : Token) (s : State) :
    (eat token).outcome s =
      if s.cursor.current.token == token then .ok true { s with cursor := s.cursor.advance }
      else .ok false s := by
  change Parser.outcome (if (s.cursor.current.token == token) = true then do
    advance
    return true
  else return false) s = _
  split <;> rfl

/-- Either the token is taken, or the place is kept. -/
theorem InStepAt.eat_bindAt {limit' : Nat} {f : Bool → Parser β} {f' : Bool → Parser β'}
    (h : token.isPlain = true) (hlimit : limit ≤ limit' + 1)
    (htrue : InStep m limit' (f true) (f' true) τ fun b => least b - 1)
    (hfalse : InStepAt P m limit (f false) (f' false) τ least) :
    InStepAt P m limit (eat token >>= f) (eat token >>= f') τ least := by
  intro s hends hload hP
  have hrun := outcome_eat token s
  have hrun' := outcome_eat token (s.moved m)
  have hat : ((s.moved m).cursor.current.token == token) =
      (s.cursor.current.token == token) := Token.beq_mapLines h _ _
  rw [hat] at hrun'
  by_cases hfound : (s.cursor.current.token == token) = true
  · rw [if_pos hfound] at hrun hrun'
    rw [outcome_bind_of_ok hrun, outcome_bind_of_ok hrun']
    -- the token is not the last one, so it is taken and the limit is met
    have hne : ∀ here : Located, here.token = token → here.token ≠ .done := by
      rintro here rfl hdone
      rw [hdone] at h
      cases h
    have hbehind : InStepAt (fun here => here.token = token) m limit (advance >>= fun _ => f true)
        (advance >>= fun _ => f' true) τ least :=
      (inStepAt_advance hne).bindAt (fun _ => hlimit) fun _ => htrue
    exact hbehind s hends hload (beq_iff_eq.1 hfound)
  · rw [if_neg hfound] at hrun hrun'
    rw [outcome_bind_of_ok hrun, outcome_bind_of_ok hrun']
    exact hfalse s hends hload hP

/-- A choice on whether a token is taken. -/
theorem InStepAt.eat_ite {one other : Parser β} {one' other' : Parser β'} (h : token.isPlain = true)
    (hone : InStep m limit one one' τ fun b => least b - 1)
    (hother : InStepAt P m limit other other' τ least) :
    InStepAt P m limit (eat token >>= fun taken => if taken = true then one else other)
      (eat token >>= fun taken => if taken = true then one' else other') τ least :=
  .eat_bindAt h (Nat.le_succ _) hone hother

/-- Behind the token that is taken there is less to read. -/
theorem InStepAt.eat_behind {one other : Parser β} {one' other' : Parser β'}
    (h : token.isPlain = true) (hone : InStep m limit one one' τ fun b => least b - 1)
    (hother : InStepAt P m (limit + 1) other other' τ least) :
    InStepAt P m (limit + 1) (eat token >>= fun taken => if taken = true then one else other)
      (eat token >>= fun taken => if taken = true then one' else other') τ least :=
  .eat_bindAt h (Nat.le_refl _) hone hother

/-- A token without lines inside is the same in both runs. -/
theorem inStep_eat (h : token.isPlain = true) : InStep m limit (eat token) (eat token) id := by
  rw [← bind_pure (eat token)]
  exact .eat_bindAt h (Nat.le_succ limit) (inStep_pure rfl rfl) (inStep_pure rfl rfl)

theorem inStep_expect (h : token.isPlain = true) (text : String) :
    InStep m limit (expect token text) (expect token text) id :=
  .eat_ite h (inStep_pure rfl rfl) (inStep_expected _)

/-- A word is not the last token. -/
theorem inStep_takeWord : InStep m limit takeWord takeWord id fun _ => 1 := by
  refine .current_bind fun here _ _ => ?_
  obtain ⟨token, line, spaced⟩ := here
  cases token with
  | word text =>
    exact (inStepAt_advance (ne_done_of_eq Token.noConfusion)).bind fun _ => inStep_pure rfl rfl
  | _ => exact inStep_expected _

/-! ### Readers in a changed state -/

/-- A change of the state that keeps the place. -/
theorem InStepAt.modify_bind {g g' : State → State} {f : Unit → Parser β} {f' : Unit → Parser β'}
    (hcursor : ∀ s, (g s).cursor = s.cursor)
    (hlines : ∀ s : State, g' (s.moved m) = (g s).moved m)
    (hf : InStepAt P m limit (f ()) (f' ()) τ least) :
    InStepAt P m limit (modify g >>= f) (modify g' >>= f') τ least := by
  intro s hends hload hP
  rw [outcome_modify_bind, outcome_modify_bind, hlines]
  have hrun := hf (g s)
  rw [hcursor] at hrun
  obtain ⟨hrun, hadvances⟩ := hrun hends hload hP
  refine ⟨hrun, ?_⟩
  unfold State.Advances at hadvances ⊢
  rw [hcursor] at hadvances
  exact hadvances

/-- Only the names, the depth and the counts change, and they have no lines. -/
theorem inStep_modify {g g' : State → State} (hcursor : ∀ s, (g s).cursor = s.cursor)
    (hlines : ∀ s : State, g' (s.moved m) = (g s).moved m) :
    InStep m limit (modify g : Parser Unit) (modify g') id := by
  rw [← bind_pure (modify g), ← bind_pure (modify g')]
  exact .modify_bind hcursor hlines (inStep_pure rfl rfl)

theorem inStep_declare (name : String) : InStep m limit (declare name) (declare name) id :=
  inStep_modify (fun _ => rfl) fun _ => rfl

theorem inStep_countDown (levels : Nat) :
    InStepAt P m limit (countDown levels) (countDown levels) id := by
  cases levels with
  | zero => exact inStep_fail Fault.noConfusion
  | succ levels => exact inStep_pure rfl rfl

variable {q : Parser β} {q' : Parser β'}

/-- What is done in any case is done in step, also behind a failure. -/
theorem InStepAt.withFinally (h : InStepAt P m limit q q' τ least) {leave leave' : Parser Unit}
    (hleave : InStep m limit leave leave' id) :
    InStepAt P m limit (tryFinally q leave) (tryFinally q' leave') τ least := by
  intro s hends hload hP
  obtain ⟨hrun, hadvances⟩ := h s hends hload hP
  cases hresult : q.outcome s with
  | error failure s' =>
    rw [hresult] at hrun hadvances
    have hfails : InStep m limit (leave >>= fun _ => throw failure : Parser β)
        (leave' >>= fun _ => throw (failure.moved m)) τ least :=
      hleave.bind fun _ _ _ _ _ => ⟨rfl, suffix_refl _, hadvances.2⟩
    have hlength : s'.cursor.tokens.length + 0 ≤ s.cursor.tokens.length :=
      hadvances.1.length_le
    have hload' : tokensWeight s'.cursor.tokens ≤ limit := by
      have hweight := tokensWeight_add_length_le hadvances.1
      omega
    obtain ⟨hrun', hadvances'⟩ :=
      hfails s' (hends.of_suffix hadvances.1 s'.cursor.tokens_ne_nil) hload' trivial
    rw [outcome_finally_of_error hrun, outcome_finally_of_error hresult]
    exact ⟨hrun', hadvances'.behind hadvances.1 hlength⟩
  | ok b s' =>
    -- where the reader comes to an end, this is a sequence
    have hboth : InStepAt P m limit (q >>= fun b => leave >>= fun _ => pure b)
        (q' >>= fun b => leave' >>= fun _ => pure b) τ least :=
      h.bind fun b => hleave.bind fun _ => inStep_pure rfl (Nat.sub_self _)
    have hseq := hboth s hends hload hP
    rw [hresult] at hrun
    rw [outcome_bind_of_ok hrun, outcome_bind_of_ok hresult] at hseq
    rw [outcome_finally_of_ok hrun, outcome_finally_of_ok hresult]
    exact hseq

/-- Both runs are at the same depth, so both fail or none. -/
theorem InStepAt.nested (h : InStepAt P m limit q q' τ least) :
    InStepAt P m limit (nested q) (nested q') τ least := by
  refine .get_bind fun s _ => .ite Iff.rfl (fun _ => ?_) fun _ => ?_
  · exact .fail_bind Fault.noConfusion
  · refine .modify_bind (fun _ => rfl) (fun _ => rfl) (h.withFinally (.get_bind fun s _ => ?_))
    exact (inStep_countDown s.depth).bind fun outer => inStep_modify (fun _ => rfl) fun _ => rfl

theorem InStepAt.leavingDo (h : InStepAt P m limit q q' τ least) :
    InStepAt P m limit (leavingDo q) (leavingDo q') τ least := by
  refine .modify_bind (fun _ => rfl) (fun _ => rfl) (h.withFinally (.get_bind fun s _ => ?_))
  exact (inStep_countDown s.claimsDo).bind fun outer => inStep_modify (fun _ => rfl) fun _ => rfl

theorem InStepAt.allowingDo (h : InStepAt P m limit q q' τ least) :
    InStepAt P m limit (allowingDo q) (allowingDo q') τ least :=
  .get_bind fun _ _ => .modify_bind (fun _ => rfl) (fun _ => rfl)
    (h.withFinally (inStep_modify (fun _ => rfl) fun _ => rfl))

theorem InStepAt.closedByPipe (h : InStepAt P m limit q q' τ least) :
    InStepAt P m limit (closedByPipe q) (closedByPipe q') τ least :=
  .get_bind fun _ _ => .modify_bind (fun _ => rfl) (fun _ => rfl)
    (h.withFinally (inStep_modify (fun _ => rfl) fun _ => rfl))

/-- The scope is entered and left in both runs. -/
theorem InStepAt.withScope (hard : Bool) (h : InStepAt P m limit q q' τ least) :
    InStepAt P m limit (withScope hard q) (withScope hard q') τ least :=
  .modify_bind (fun _ => rfl) (fun _ => rfl)
    (h.withFinally (inStep_modify (fun _ => rfl) fun _ => rfl))

end InStep
end LaneScript
