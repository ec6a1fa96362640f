import LaneScript.Proofs.ReaderRuns
import LaneScript.Proofs.TextReading

/-!
# Readers that put the state back

A reader leaves the state as it found it, but for two things: the place has moved forward, and the
innermost scope may have more names.  `State.Restored` says this of two states, and nothing is
assumed of the first: its tokens may be any, and so may its scopes and its counts.

`Restores d p Q` says it of all runs of a reader at the level `d`, of those that come to an end and
of those that fail, and that `Q` holds of what the reader returns and of the scopes before and
behind it.  It holds along a sequence of readers, `Restores.bind`.  A combinator that changes the
state for a reader relies on that reader to find its own change again, `Restores.between`: behind a
new scope the scopes are those before it, since the reader has changed no scope but the new one, and
a count that was counted up can be counted down, behind a failure too.

A level is a depth of the nesting.  It also tells whether the tokens are taken to be those of a
text, as `Token.IsWellFormed` has it.  A reader only goes forward in them, and the tokens of
interpolated code come from a text again.  At such a level no run fails because a count goes below
zero.
-/

namespace LaneScript

open LaneScript.Parser

/-! ### Places -/

namespace Cursor

/-- The tokens from the current one on. -/
def tokens (cursor : Cursor) : List Located := cursor.current :: cursor.ahead

/-- What is ahead of a place is a part of what was. -/
theorem tokens_advance (cursor : Cursor) : cursor.advance.tokens <:+ cursor.tokens := by
  unfold advance
  split
  · exact List.suffix_refl _
  next next others hahead =>
    unfold tokens
    rw [hahead]
    exact List.suffix_cons _ _

theorem tokens_skip (skipped : Token → Bool) (cursor : Cursor) :
    (cursor.skip skipped).tokens <:+ cursor.tokens := by
  obtain ⟨current, ahead⟩ := cursor
  unfold skip tokens
  induction ahead generalizing current with
  | nil => exact List.suffix_refl _
  | cons next others ih =>
    simp only [skipFrom]
    split
    · exact (ih next).trans (List.suffix_cons _ _)
    · exact List.suffix_refl _

/-- The strings are taken from the front. -/
theorem tokens_strings (cursor : Cursor) : cursor.strings.2.tokens <:+ cursor.tokens := by
  obtain ⟨current, ahead⟩ := cursor
  unfold strings tokens
  induction ahead generalizing current with
  | nil => exact List.suffix_refl _
  | cons next others ih =>
    simp only [stringsFrom]
    split
    · exact (ih next).trans (List.suffix_cons _ _)
    · exact List.suffix_refl _

end Cursor

/-! ### Scopes -/

/-- The innermost scope may have more names; all else is the same. -/
inductive Scope.Extends : List Scope → List Scope → Prop where
  | none : Extends [] []
  | innermost {scope scope' : Scope} (outer : List Scope) (hhard : scope'.hard = scope.hard)
      (hnames : scope.names ⊆ scope'.names) : Extends (scope :: outer) (scope' :: outer)

namespace Scope

theorem Extends.refl (scopes : List Scope) : Extends scopes scopes := by
  cases scopes with
  | nil => exact .none
  | cons scope outer => exact .innermost outer rfl (List.Subset.refl _)

theorem Extends.trans {scopes scopes' scopes'' : List Scope} (h : Extends scopes scopes')
    (h' : Extends scopes' scopes'') : Extends scopes scopes'' := by
  cases h with
  | none => exact h'
  | innermost outer hhard hnames =>
    cases h' with
    | innermost _ hhard' hnames' =>
      exact .innermost outer (hhard'.trans hhard) (List.Subset.trans hnames hnames')

theorem Extends.tail_eq {scopes scopes' : List Scope} (h : Extends scopes scopes') :
    scopes'.tail = scopes.tail := by
  cases h <;> rfl

/-- A scope with a new name has the names it had. -/
theorem declare_spec (scope : Scope) (name : String) :
    (scope.declare name).hard = scope.hard ∧ scope.names ⊆ (scope.declare name).names := by
  unfold declare
  split
  · exact ⟨rfl, List.Subset.refl _⟩
  · exact ⟨rfl, List.subset_cons_self _ _⟩

/-- A declaration grows the innermost scope only. -/
theorem extends_declareIn (name : String) (scopes : List Scope) :
    Extends scopes (declareIn name scopes) := by
  cases scopes with
  | nil => exact .none
  | cons scope outer =>
    obtain ⟨hhard, hnames⟩ := scope.declare_spec name
    exact .innermost outer hhard hnames

/-- So does what an inner scope leaves behind. -/
theorem extends_absorb (inner scopes : List Scope) : Extends scopes (absorb inner scopes) := by
  cases scopes with
  | nil => exact .none
  | cons scope outer =>
    cases inner with
    | nil => exact .refl _
    | cons found _ =>
      change Extends _ (found.names.foldr (fun name scope => scope.declare name) scope :: outer)
      -- one name after the other
      induction found.names with
      | nil => exact .refl _
      | cons name names ih => exact ih.trans (extends_declareIn name (_ :: outer))

end Scope

/-! ### States -/

/-- All tokens that are still to be read are well-formed. -/
def State.IsWellFormed (s : State) : Prop := ∀ here ∈ s.cursor.tokens, here.token.IsWellFormed

/-- The state is as it was, but for the names of the innermost scope and for the place, which may
have moved forward. -/
structure State.Restored (s s' : State) : Prop where
  depth : s'.depth = s.depth
  claimsDo : s'.claimsDo = s.claimsDo
  pipeCloses : s'.pipeCloses = s.pipeCloses
  scopes : Scope.Extends s.scopes s'.scopes
  tokens : s'.cursor.tokens <:+ s.cursor.tokens

theorem State.Restored.refl (s : State) : s.Restored s :=
  ⟨rfl, rfl, rfl, .refl _, List.suffix_refl _⟩

theorem State.Restored.trans {s s' s'' : State} (h : s.Restored s') (h' : s'.Restored s'') :
    s.Restored s'' :=
  ⟨h'.depth.trans h.depth, h'.claimsDo.trans h.claimsDo, h'.pipeCloses.trans h.pipeCloses,
    h.scopes.trans h'.scopes, h'.tokens.trans h.tokens⟩

theorem State.Restored.isWellFormed {s s' : State} (h : s.Restored s') (hs : s.IsWellFormed) :
    s'.IsWellFormed :=
  fun here hhere => hs here (h.tokens.subset hhere)

/-- However a run from the state ends, the state is restored.  It does not fail because a count goes
below zero, and what it returns has the property. -/
def State.Balances {α : Type} (s : State) (Q : α → Prop) : EStateM.Result Failure State α → Prop
  | .ok a s' => s.Restored s' ∧ Q a
  | .error failure s' => s.Restored s' ∧ failure.fault ≠ .unbalanced

theorem State.Balances.mono {α : Type} {s : State} {P Q : α → Prop}
    {outcome : EStateM.Result Failure State α} (h : s.Balances P outcome) (hPQ : ∀ a, P a → Q a) :
    s.Balances Q outcome := by
  cases outcome with
  | ok a s' => exact ⟨h.1, hPQ a h.2⟩
  | error failure s' => exact h

/-- The state at the start of a text. -/
theorem isWellFormed_start {tokens : List Located} (h : ∀ here ∈ tokens, here.token.IsWellFormed)
    (file : String) (scopes : List Scope) (depth : Nat) :
    (State.start file tokens scopes depth).IsWellFormed := by
  cases tokens with
  | nil =>
    intro here hhere
    rw [List.mem_singleton.1 hhere]
    trivial
  | cons first others => exact h

/-! ### Readers at a level -/

/-- Where a reader stands. -/
structure ReadingLevel where
  depth : Nat
  /-- The tokens are taken to be those of a text. -/
  written : Prop

/-- One level deeper. -/
def ReadingLevel.deeper (d : ReadingLevel) : ReadingLevel := { d with depth := d.depth + 1 }

/-- The state is one of the level. -/
structure State.IsAt (s : State) (d : ReadingLevel) : Prop where
  depth : s.depth = d.depth
  written : d.written → s.IsWellFormed

/-- The outcome of a run from the state restores it, and what is returned has the property together
with the scopes behind it.  A run on a text does not fail for a count. -/
def State.Ends {α : Type} (s : State) (written : Prop) (Q : α → List Scope → Prop) :
    EStateM.Result Failure State α → Prop
  | .ok a s' => s.Restored s' ∧ Q a s'.scopes
  | .error failure s' => s.Restored s' ∧ (written → failure.fault ≠ .unbalanced)

/-- The reader restores the state from any state of the level, and what it returns has the property
together with the scopes before and behind it. -/
def Restores {α : Type} (d : ReadingLevel) (p : Parser α)
    (Q : α → List Scope → List Scope → Prop) : Prop :=
  ∀ s : State, s.IsAt d → s.Ends d.written (fun a => Q a s.scopes) (p.outcome s)

section Ends

variable {α : Type} {s s' : State} {written : Prop} {Q Q' : α → List Scope → Prop}
  {outcome : EStateM.Result Failure State α}

theorem State.Ends.mono (h : s.Ends written Q outcome) (hQ : ∀ a scopes, Q a scopes → Q' a scopes) :
    s.Ends written Q' outcome := by
  cases outcome with
  | error failure s' => exact h
  | ok a s' => exact ⟨h.1, hQ _ _ h.2⟩

theorem State.Ends.behind (h : s'.Ends written Q outcome) (hs : s.Restored s') :
    s.Ends written Q outcome := by
  cases outcome with
  | error failure s' => exact ⟨hs.trans h.1, h.2⟩
  | ok a s' => exact ⟨hs.trans h.1, h.2⟩

/-- On a text the outcome keeps the balance. -/
theorem State.Ends.balances {P : α → Prop} (h : s.Ends True Q outcome)
    (hP : ∀ a scopes, Q a scopes → P a) : s.Balances P outcome := by
  cases outcome with
  | error failure s' => exact ⟨h.1, h.2 trivial⟩
  | ok a s' => exact ⟨h.1, hP _ _ h.2⟩

end Ends

section Restores

variable {α β : Type} {d : ReadingLevel} {p : Parser α} {f : α → Parser β}
  {Q Q' : α → List Scope → List Scope → Prop} {R : β → List Scope → List Scope → Prop}

/-- What is known of a run that comes to an end. -/
theorem Restores.of_run (hp : Restores d p Q) {s s' : State} {a : α} (hs : s.IsAt d)
    (hrun : p.run s = .ok (a, s')) : s.Restored s' ∧ Q a s.scopes s'.scopes := by
  have hends := hp s hs
  rw [run_eq_ok_iff.1 hrun] at hends
  exact hends

theorem restores_pure {a : α} (h : ∀ scopes, Q a scopes scopes) : Restores d (pure a) Q :=
  fun s _ => ⟨.refl s, h s.scopes⟩

/-- A reader that has restored the state is still at its level. -/
theorem State.Restored.isAt {s s' : State} (h : s.Restored s') (hs : s.IsAt d) : s'.IsAt d :=
  ⟨h.depth.trans hs.depth, fun hwritten => h.isWellFormed (hs.written hwritten)⟩

theorem Restores.bind (hp : Restores d p Q)
    (hf : ∀ a (s s' : State), s'.IsAt d → Q a s.scopes s'.scopes →
      s'.Ends d.written (fun b => R b s.scopes) ((f a).outcome s')) : Restores d (p >>= f) R := by
  intro s hs
  have hfirst := hp s hs
  cases hrun : p.outcome s with
  | error failure s' =>
    rw [hrun] at hfirst
    rw [outcome_bind_of_error hrun]
    exact hfirst
  | ok a s' =>
    rw [hrun] at hfirst
    obtain ⟨hrestored, ha⟩ := hfirst
    rw [outcome_bind_of_ok hrun]
    exact (hf a s s' (hrestored.isAt hs) ha).behind hrestored

theorem Restores.mono (hp : Restores d p Q) (h : ∀ a before behind, Q a before behind →
    Q' a before behind) : Restores d p Q' :=
  fun s hs => (hp s hs).mono fun a behind => h a s.scopes behind

/-- A reader between a change of the state and what takes the change back.  The second has to do so
wherever the reader may have stopped. -/
theorem Restores.between (hp : Restores d p Q) {s : State} {enter : State → State}
    {leave : Parser Unit} (back : State → State) (henter : (enter s).IsAt d)
    (hleave : ∀ inner, (enter s).Restored inner →
      leave.outcome inner = .ok () (back inner) ∧ s.Restored (back inner))
    (hQ : ∀ a inner, (enter s).Restored inner → Q a (enter s).scopes inner.scopes →
      Q' a s.scopes (back inner).scopes) :
    s.Ends d.written (fun a => Q' a s.scopes)
      ((modify enter >>= fun _ => tryFinally p leave : Parser α).outcome s) := by
  have hinner := hp (enter s) henter
  rw [outcome_modify_bind]
  cases hrun : p.outcome (enter s) with
  | error failure inner =>
    rw [hrun] at hinner
    obtain ⟨hback, hrestored⟩ := hleave inner hinner.1
    rw [outcome_finally_of_error hrun, outcome_bind_of_ok hback]
    exact ⟨hrestored, hinner.2⟩
  | ok a inner =>
    rw [hrun] at hinner
    obtain ⟨hback, hrestored⟩ := hleave inner hinner.1
    rw [outcome_finally_of_ok hrun, outcome_bind_of_ok hback]
    exact ⟨hrestored, hQ a inner hinner.1 hinner.2⟩

end Restores

/-! ### Readers in a changed state -/

section Changed

variable {α : Type} {d : ReadingLevel} {p : Parser α} {Q : α → List Scope → List Scope → Prop}

/-- The reader inside is one level deeper, and there is such a level. -/
theorem Restores.nested (hp : Restores d.deeper p Q) :
    Restores d (nested p) fun a before behind => d.depth < maxNesting ∧ Q a before behind := by
  intro s hs
  rw [Parser.nested, outcome_get_bind]
  split
  · exact ⟨.refl s, fun _ => Fault.noConfusion⟩
  next hdepth =>
    have hlt : d.depth < maxNesting := by
      have := hs.depth
      omega
    refine State.Ends.mono (hp.between (fun inner => { inner with depth := s.depth })
      ⟨congrArg (· + 1) hs.depth, hs.written⟩ (fun inner hinner => ⟨?_, ?_⟩)
      fun a inner _ ha => ha) fun a _ ha => ⟨hlt, ha⟩
    · -- the reader inside has put back the count that it found, so it can be counted down
      rw [outcome_get_bind, hinner.depth]
      rfl
    · exact ⟨rfl, hinner.claimsDo, hinner.pipeCloses, hinner.scopes, hinner.tokens⟩

theorem Restores.leavingDo (hp : Restores d p Q) : Restores d (leavingDo p) Q := by
  intro s hs
  refine hp.between (fun inner => { inner with claimsDo := s.claimsDo })
    ⟨hs.depth, hs.written⟩ (fun inner hinner => ⟨?_, ?_⟩) fun a inner _ ha => ha
  · rw [outcome_get_bind, hinner.claimsDo]
    rfl
  · exact ⟨hinner.depth, rfl, hinner.pipeCloses, hinner.scopes, hinner.tokens⟩

theorem Restores.allowingDo (hp : Restores d p Q) : Restores d (allowingDo p) Q := by
  intro s hs
  rw [Parser.allowingDo, outcome_get_bind]
  refine hp.between (fun inner => { inner with claimsDo := s.claimsDo })
    ⟨hs.depth, hs.written⟩ (fun inner hinner => ⟨rfl, ?_⟩) fun a inner _ ha => ha
  exact ⟨hinner.depth, rfl, hinner.pipeCloses, hinner.scopes, hinner.tokens⟩

theorem Restores.closedByPipe (hp : Restores d p Q) : Restores d (closedByPipe p) Q := by
  intro s hs
  rw [Parser.closedByPipe, outcome_get_bind]
  refine hp.between (fun inner => { inner with pipeCloses := s.pipeCloses })
    ⟨hs.depth, hs.written⟩ (fun inner hinner => ⟨rfl, ?_⟩) fun a inner _ ha => ha
  exact ⟨hinner.depth, hinner.claimsDo, rfl, hinner.scopes, hinner.tokens⟩

/-- Behind a new scope the scopes are those before it, with the names they had. -/
theorem Restores.withScope {R : α → List Scope → List Scope → Prop} {hard : Bool}
    (hp : Restores d p Q)
    (hR : ∀ a scopes inner, Q a (.empty hard :: scopes) inner → R a scopes scopes) :
    Restores d (withScope hard p) R := by
  intro s hs
  -- the scope that is taken off is the new one, the only one that may have changed
  have hscopes : ∀ inner : State,
      State.Restored { s with scopes := .empty hard :: s.scopes } inner →
        inner.scopes.tail = s.scopes :=
    fun inner hinner => hinner.scopes.tail_eq
  refine hp.between (fun inner => { inner with scopes := inner.scopes.tail })
    ⟨hs.depth, hs.written⟩ (fun inner hinner => ⟨rfl, hinner.depth, hinner.claimsDo,
      hinner.pipeCloses, ?_, hinner.tokens⟩) fun a inner hinner ha => ?_
  · change Scope.Extends s.scopes inner.scopes.tail
    rw [hscopes inner hinner]
    exact .refl _
  · change R a s.scopes inner.scopes.tail
    rw [hscopes inner hinner]
    exact hR a s.scopes inner.scopes ha

end Changed
end LaneScript
