import LaneScript.Proofs.StateDiscipline

/-!
# Runs on inputs that part at a mark

Two inputs have the same tokens up to a place where one of them has one mark and the other another:
the end of the input and a line end, the brace that closes a block and the word `end`, or the brace
that opens one and the word `do`.  This is a `Fork`.  A reader that starts before the marks, and
that ends on the first input before or at its mark, does the same on the second input: it has seen
nothing that is not in both.  This file says so for the small readers, and for sequences of readers.

* `Concurs` — from every place before the marks the second run agrees with the first.
* `Agrees` — the same also where the reader starts at the marks.
* `Leaves` — where it starts at the mark, the first run does not end there.

A reader may look one or two tokens ahead, and the only thing about a mark that shows from there is
whether blank space is before it.  This tells an operand behind a name from an operator, so that
where the marks differ in it the second run may fail; and behind one token, a `&` that stands last,
the two runs part, though the first of them is lost already (`Fork.Doomed`).
-/

namespace LaneScript

open LaneScript.Parser
open List

variable {token : Token} {tokens : List Located}

/-! ### Forks -/

/-- The marks at which two inputs part. -/
inductive ForkKind where
  /-- The end of the input, and a line end. -/
  | line
  /-- A closing brace, and the word `end`. -/
  | closing
  /-- An opening brace, and the word `do`. -/
  | opening
  deriving DecidableEq

/-- The mark of the first input. -/
def ForkKind.first : ForkKind → Token
  | .line => .done
  | .closing => .rbrace
  | .opening => .lbrace

/-- The mark of the second input. -/
def ForkKind.second : ForkKind → Token
  | .line => .newline
  | .closing => .word "end"
  | .opening => .word "do"

/-- The token can be a mark. -/
def Token.isMark : Token → Bool
  | .done | .rbrace | .lbrace | .newline => true
  | .word text => text == "end" || text == "do"
  | _ => false

/-- The marks at which two inputs part, and what stands behind them. -/
structure Fork where
  kind : ForkKind
  mark : Located
  rest : List Located
  mark' : Located
  rest' : List Located
  token : mark.token = kind.first
  token' : mark'.token = kind.second
  spaced : mark'.spaced = mark.spaced ∨
    kind = .line ∧ mark.spaced = true ∧ mark'.spaced = false
  /-- Only the end of the input is last. -/
  rest_ne : kind ≠ .line → rest ≠ []
  /-- No chain of calls goes on behind the line end. -/
  noDot : kind = .line →
    ((Cursor.mk mark' rest').skip (· == .newline)).current.token ≠ .dot ∧
    ((Cursor.mk mark' rest').skip (· == .newline)).current.token ≠ .safeDot
  /-- A word that is a mark is no target of an assignment. -/
  noTarget : kind ≠ .line →
    ∀ next ∈ rest'.head?, next.token ≠ .comma ∧ next.token ≠ .op .assign

namespace Fork

variable (fork : Fork)

/-- The first input from some tokens before the mark on. -/
def first (x : List Located) : List Located := x ++ fork.mark :: fork.rest

/-- The second input from some tokens before the mark on. -/
def second (x : List Located) : List Located := x ++ fork.mark' :: fork.rest'

/-- How many tokens before the mark a run has to leave, so that both runs agree: behind a mark that
opens something, nothing is the same. -/
def least : Nat := if fork.kind = .opening then 1 else 0

/-- Blank space is not the same before the marks. -/
def Differs : Prop := fork.mark'.spaced ≠ fork.mark.spaced

/-- What is left before the mark is a `&`.  It is taken for a block on the second input, and on the
first one for an operator that has no operand. -/
def Doomed (x : List Located) : Prop :=
  fork.Differs ∧ ∃ here : Located, x = [here] ∧ here.token = .op (.binary .bitAnd)

/-- The second run comes to the same as the first; or it fails, where blank space is not the
same. -/
def Same {α : Type} (a : α) (s : State) (x : List Located) (outcome : Except Failure (α × State)) :
    Prop :=
  outcome = .ok (a, s.at (fork.second x)) ∨ fork.Differs ∧ ∃ failure, outcome = .error failure

variable {fork}

@[simp] theorem length_first (x : List Located) :
    (fork.first x).length = x.length + (fork.rest.length + 1) := by
  simp [first]

theorem first_cons (here : Located) (x : List Located) :
    fork.first (here :: x) = here :: fork.first x := rfl

theorem second_cons (here : Located) (x : List Located) :
    fork.second (here :: x) = here :: fork.second x := rfl

/-- What is left before the mark tells what came before it. -/
theorem first_injective {x y : List Located} (h : fork.first x = fork.first y) : x = y :=
  append_cancel_right h

theorem first_ne_nil (x : List Located) : fork.first x ≠ [] :=
  append_ne_nil_of_right_ne_nil _ (cons_ne_nil _ _)

theorem second_ne_nil (x : List Located) : fork.second x ≠ [] :=
  append_ne_nil_of_right_ne_nil _ (cons_ne_nil _ _)

/-- What is left between two places before the mark ends at the mark. -/
theorem exists_first_between {x x' tokens : List Located} (h' : fork.first x' <:+ tokens)
    (h : tokens <:+ fork.first x) :
    ∃ y, tokens = fork.first y ∧ x' <:+ y ∧ y <:+ x := by
  obtain ⟨taken, rfl⟩ := h'
  refine ⟨taken ++ x', by simp [first], suffix_append _ _, ?_⟩
  rw [first, first, ← List.append_assoc] at h
  obtain ⟨before, hbefore⟩ := h
  rw [← List.append_assoc] at hbefore
  exact ⟨before, append_cancel_right hbefore⟩

/-- Only a line end differs in the blank space before it. -/
theorem Differs.kind_eq (h : fork.Differs) : fork.kind = .line := by
  rcases fork.spaced with hspaced | ⟨hkind, -⟩
  · exact absurd hspaced h
  · exact hkind

theorem least_le : fork.least ≤ 1 := by
  unfold least
  split <;> decide

/-- The token at which the first run forks is a mark. -/
theorem isMark_mark : fork.mark.token.isMark = true := by
  rw [fork.token]
  cases fork.kind <;> rfl

theorem isMark_mark' : fork.mark'.token.isMark = true := by
  rw [fork.token']
  cases fork.kind <;> rfl

/-- What cannot be a mark is not the first one. -/
theorem mark_ne (h : token.isMark = false) : fork.mark.token ≠ token := by
  rintro rfl
  rw [isMark_mark] at h
  cases h

/-- Nor is it the second one. -/
theorem mark'_ne (h : token.isMark = false) : fork.mark'.token ≠ token := by
  rintro rfl
  rw [isMark_mark'] at h
  cases h

/-- A token that is no mark is not found at the mark. -/
theorem mark_beq (h : token.isMark = false) : (fork.mark.token == token) = false :=
  beq_eq_false_iff_ne.2 (mark_ne h)

theorem mark'_beq (h : token.isMark = false) : (fork.mark'.token == token) = false :=
  beq_eq_false_iff_ne.2 (mark'_ne h)

end Fork

/-! ### States -/

/-- A state is at the tokens of its place. -/
theorem State.at_tokens {s : State} (h : s.cursor.tokens = tokens) : s.at tokens = s := by
  subst h
  rfl

theorem Cursor.tokens_ofTokens (h : tokens ≠ []) : (Cursor.ofTokens tokens).tokens = tokens := by
  cases tokens with
  | nil => exact absurd rfl h
  | cons first others => rfl

/-- A state that is put at some tokens is at them, unless there are none. -/
theorem State.tokens_at (s : State) (h : tokens ≠ []) : (s.at tokens).cursor.tokens = tokens :=
  Cursor.tokens_ofTokens h

/-- Two states that are equal at places before the mark differ nowhere else, and the places are the
same. -/
theorem Fork.at_eq {fork : Fork} {s s' : State} {x x' : List Located}
    (h : s.at (fork.first x) = s'.at (fork.first x')) :
    x = x' ∧ ∀ tokens, s.at tokens = s'.at tokens := by
  have htokens := congrArg (fun state : State => state.cursor.tokens) h
  simp only [State.tokens_at _ (Fork.first_ne_nil _)] at htokens
  refine ⟨Fork.first_injective htokens, fun tokens => ?_⟩
  rw [← State.at_at s (fork.first x) tokens, h, State.at_at]

/-- The reader goes forward in the tokens. -/
def Forward {α : Type} (p : Parser α) : Prop :=
  ∀ s a s', p.run s = .ok (a, s') → s'.cursor.tokens <:+ s.cursor.tokens

section Forward

variable {α β : Type} {p : Parser α} {f : α → Parser β}

theorem forward_pure (a : α) : Forward (pure a) := by
  intro s a s' hrun
  cases hrun
  exact suffix_refl _

/-- Readers in a sequence go forward if each of them does. -/
theorem Forward.bind (hp : Forward p) (hf : ∀ a, Forward (f a)) : Forward (p >>= f) := by
  intro s b s'' hrun
  obtain ⟨a, s', hfirst, hsecond⟩ := exists_of_run_bind hrun
  exact (hf a s' b s'' hsecond).trans (hp s a s' hfirst)

/-- Where a sequence of readers ends before the mark or at it, so does the first of them. -/
theorem exists_first_of_run_bind {fork : Fork} {s s' : State} {x x' : List Located} {b : β}
    (hp : Forward p) (hf : ∀ a, Forward (f a))
    (hrun : (p >>= f).run (s.at (fork.first x)) = .ok (b, s'.at (fork.first x'))) :
    ∃ (a : α) (s₁ : State) (y : List Located),
      p.run (s.at (fork.first x)) = .ok (a, s₁.at (fork.first y)) ∧
      (f a).run (s₁.at (fork.first y)) = .ok (b, s'.at (fork.first x')) ∧
      x' <:+ y ∧ y <:+ x := by
  obtain ⟨a, s₁, hfirst, hsecond⟩ := exists_of_run_bind hrun
  have hbehind := hf a s₁ b _ hsecond
  have hbefore := hp _ a s₁ hfirst
  rw [State.tokens_at _ (Fork.first_ne_nil _)] at hbehind hbefore
  obtain ⟨y, htokens, hx', hx⟩ := Fork.exists_first_between hbehind hbefore
  rw [← State.at_tokens htokens] at hfirst hsecond
  exact ⟨a, s₁, y, hfirst, hsecond, hx', hx⟩

end Forward

/-! ### Agreement -/

section Agreement

variable {α β : Type} (fork : Fork)

/-- Where the reader starts before the marks, and the first run leaves so many tokens before its
mark, the second run agrees with it.  A `loose` reader may leave a doomed place. -/
structure Concurs (least : Nat) (loose : Bool) (p : Parser α) : Prop where
  forward : Forward p
  same : ∀ (s : State) (x : List Located) (a : α) (s' : State) (x' : List Located), x ≠ [] →
    p.run (s.at (fork.first x)) = .ok (a, s'.at (fork.first x')) → least ≤ x'.length →
      loose = true ∧ fork.Doomed x' ∨ fork.Same a s' x' (p.run (s.at (fork.second x)))

/-- Where the first run of one reader starts at the mark and stays there, the second run, of another
one, agrees with it. -/
def AtMark (p q : Parser α) : Prop :=
  ∀ (s : State) (a : α) (s' : State),
    p.run (s.at (fork.first [])) = .ok (a, s'.at (fork.first [])) →
      fork.Same a s' [] (q.run (s.at (fork.second [])))

/-- The runs agree, wherever the reader starts. -/
structure Agrees (least : Nat) (loose : Bool) (p : Parser α) : Prop
    extends Concurs fork least loose p where
  atMark : least = 0 → AtMark fork p p

/-- A run that starts at the mark does not stay there: it fails or passes over the mark. -/
def Clears (p : Parser α) : Prop :=
  ∀ (s : State) (a : α) (s' : State) (x' : List Located),
    p.run (s.at (fork.first [])) ≠ .ok (a, s'.at (fork.first x'))

/-- The runs agree where they start before the marks, and no run stays at the mark. -/
structure Leaves (least : Nat) (loose : Bool) (p : Parser α) : Prop
    extends Concurs fork least loose p where
  clears : least = 0 → Clears fork p

/-- A run that starts at a doomed place does not leave it; a reader that is not loose fails
there. -/
def Absorbs (loose : Bool) (p : Parser α) : Prop :=
  ∀ (here : Located) (s : State) (a : α) (s' : State) (x' : List Located), fork.Doomed [here] →
    p.run (s.at (fork.first [here])) = .ok (a, s'.at (fork.first x')) →
      loose = true ∧ fork.Doomed x'

end Agreement

section Combinators

variable {α β : Type} {fork : Fork} {p q : Parser α} {f g : α → Parser β} {k : Nat}
  {loose loose' : Bool}

/-- Where more tokens have to be left, less is asked of the runs. -/
theorem Concurs.mono {k' : Nat} (h : Concurs fork k loose p) (hk : k ≤ k') :
    Concurs fork k' loose p :=
  ⟨h.forward, fun s x a s' x' hx hrun hlength =>
    h.same s x a s' x' hx hrun (Nat.le_trans hk hlength)⟩

/-- A reader that leaves no doomed place is loose too. -/
theorem Concurs.loosen (h : Concurs fork k false p) : Concurs fork k loose p :=
  ⟨h.forward, fun s x a s' x' hx hrun hlength =>
    .inr ((h.same s x a s' x' hx hrun hlength).resolve_left fun hdoomed => nomatch hdoomed.1)⟩

/-- To agree up to the mark is more than to agree before it. -/
theorem Concurs.weaken (h : Concurs fork fork.least loose p) : Concurs fork 1 loose p :=
  h.mono Fork.least_le

/-- Of a reader that need not agree at the mark, nothing is asked there. -/
theorem Agrees.of_weak (h : Concurs fork 1 loose p) : Agrees fork 1 loose p :=
  ⟨h, nofun⟩

theorem Agrees.loosen (h : Agrees fork k false p) : Agrees fork k loose p :=
  ⟨h.toConcurs.loosen, h.atMark⟩

/-- A reader that leaves the mark agrees before it. -/
theorem Leaves.weak (h : Leaves fork fork.least loose p) : Concurs fork 1 loose p :=
  h.toConcurs.weaken

theorem Agrees.weak (h : Agrees fork fork.least loose p) : Concurs fork 1 loose p :=
  h.toConcurs.weaken

/-- At the mark there is nothing to show for a reader that does not stay there. -/
theorem Leaves.agrees (h : Leaves fork k loose p) : Agrees fork k loose p :=
  ⟨h.toConcurs, fun hk s a s' hrun => absurd hrun (h.clears hk s a s' [])⟩

/-- A second run that fails at some reader fails behind it. -/
theorem Fork.Same.bind {a : α} {b : β} {s s₁ s' : State} {y x' : List Located}
    (hp : fork.Same a s₁ y (p.run s))
    (hf : fork.Same b s' x' ((f a).run (s₁.at (fork.second y)))) :
    fork.Same b s' x' ((p >>= f).run s) := by
  rcases hp with hp | ⟨hdiffers, failure, hp⟩
  · rw [run_bind_ok hp]
    exact hf
  · refine .inr ⟨hdiffers, failure, ?_⟩
    rw [Parser.run_bind, hp]
    rfl

/-- The runs agree wherever the first of them starts, the mark included. -/
theorem Agrees.same_of_run (h : Agrees fork k loose p) {s s' : State} {x x' : List Located} {a : α}
    (hrun : p.run (s.at (fork.first x)) = .ok (a, s'.at (fork.first x')))
    (hlength : k ≤ x'.length) :
    loose = true ∧ fork.Doomed x' ∨ fork.Same a s' x' (p.run (s.at (fork.second x))) := by
  cases x with
  | nil =>
    -- what starts at the mark and does not pass over it stays there
    have hbehind := h.forward _ a _ hrun
    rw [State.tokens_at _ (Fork.first_ne_nil _), State.tokens_at _ (Fork.first_ne_nil _)] at hbehind
    obtain ⟨y, hy, hx', -⟩ := Fork.exists_first_between hbehind (suffix_refl _)
    obtain rfl := Fork.first_injective hy
    obtain rfl := suffix_nil.1 hx'
    exact .inr (h.atMark (Nat.le_zero.1 hlength) s a s' hrun)
  | cons here x => exact h.same s (here :: x) a s' x' (cons_ne_nil _ _) hrun hlength

/-- Where the same blank space is before the marks, the second run cannot fail. -/
theorem Agrees.run_second (h : Agrees fork k false p) (hkind : fork.kind ≠ .line) {s s' : State}
    {x x' : List Located} {a : α}
    (hrun : p.run (s.at (fork.first x)) = .ok (a, s'.at (fork.first x')))
    (hlength : k ≤ x'.length) :
    p.run (s.at (fork.second x)) = .ok (a, s'.at (fork.second x')) := by
  rcases h.same_of_run hrun hlength with ⟨hloose, -⟩ | hsame | ⟨hdiffers, -⟩
  · cases hloose
  · exact hsame
  · exact absurd hdiffers.kind_eq hkind

/-- Two readers in a sequence agree if both do.  If the first may leave a doomed place, the second
has to absorb it. -/
theorem Concurs.bind_loose (hp : Concurs fork k loose p)
    (hf : ∀ a, Agrees fork k loose' (f a))
    (habsorbs : loose = true → ∀ a, Absorbs fork loose' (f a)) :
    Concurs fork k loose' (p >>= f) := by
  refine ⟨hp.forward.bind fun a => (hf a).forward, ?_⟩
  intro s x b s' x' hx hrun hlength
  obtain ⟨a, s₁, y, hfirst, hsecond, hy, -⟩ :=
    exists_first_of_run_bind hp.forward (fun a => (hf a).forward) hrun
  -- the first reader leaves at least what the second leaves, so it agrees
  rcases hp.same s x a s₁ y hx hfirst (Nat.le_trans hlength hy.length_le) with
    ⟨hloose, hdoomed⟩ | hsame
  · obtain ⟨hdiffers, here, rfl, hhere⟩ := hdoomed
    exact .inl (habsorbs hloose a here s₁ b s' x' ⟨hdiffers, here, rfl, hhere⟩ hsecond)
  · exact ((hf a).same_of_run hsecond hlength).imp_right hsame.bind

/-- What leaves no doomed place needs no reader behind it that absorbs one. -/
theorem Concurs.bind (hp : Concurs fork k false p)
    (hf : ∀ a, Agrees fork k loose (f a)) : Concurs fork k loose (p >>= f) :=
  hp.bind_loose hf nofun

/-- Runs that end before the mark never come to it in between. -/
theorem Concurs.bind_weak (hp : Concurs fork 1 false p)
    (hf : ∀ a, Concurs fork 1 loose (f a)) : Concurs fork 1 loose (p >>= f) :=
  hp.bind fun a => .of_weak (hf a)

/-- What comes behind a reader that need not agree at the mark has to leave the mark. -/
theorem Concurs.bind_leaves (hp : Concurs fork 1 false p)
    (hf : ∀ a, Leaves fork k loose (f a)) : Leaves fork k loose (p >>= f) := by
  refine ⟨⟨hp.forward.bind fun a => (hf a).forward, ?_⟩, ?_⟩
  · intro s x b s' x' hx hrun hlength
    obtain ⟨a, s₁, y, hfirst, hsecond, hy, -⟩ :=
      exists_first_of_run_bind hp.forward (fun a => (hf a).forward) hrun
    cases y with
    | nil =>
      -- between the readers the run is at the mark, and the second one cannot stay there
      obtain rfl := suffix_nil.1 hy
      exact absurd hsecond ((hf a).clears (Nat.le_zero.1 hlength) s₁ b s' [])
    | cons here y =>
      have hsame := (hp.same s x a s₁ (here :: y) hx hfirst (Nat.succ_pos _)).resolve_left
        fun hdoomed => nomatch hdoomed.1
      have hbehind := (hf a).same s₁ (here :: y) b s' x' (cons_ne_nil _ _) hsecond hlength
      exact hbehind.imp_right hsame.bind
  · intro hk s b s' x' hrun
    obtain ⟨a, s₁, y, -, hsecond, -, hy⟩ :=
      exists_first_of_run_bind hp.forward (fun a => (hf a).forward) hrun
    obtain rfl := suffix_nil.1 hy
    exact (hf a).clears hk s₁ b s' x' hsecond

/-- What does not stay at the mark cannot come back to it. -/
theorem Clears.bind (hp : Clears fork p) (hforward : Forward p) (hf : ∀ a, Forward (f a)) :
    Clears fork (p >>= f) := by
  intro s b s' x' hrun
  obtain ⟨a, s₁, y, hfirst, -, -, -⟩ := exists_first_of_run_bind hforward hf hrun
  exact hp s a s₁ y hfirst

/-- What leaves the mark does not come back to it, whatever is read behind. -/
theorem Leaves.bind_loose (hp : Leaves fork k loose p) (hf : ∀ a, Agrees fork k loose' (f a))
    (habsorbs : loose = true → ∀ a, Absorbs fork loose' (f a)) :
    Leaves fork k loose' (p >>= f) :=
  ⟨hp.toConcurs.bind_loose hf habsorbs,
    fun hk => (hp.clears hk).bind hp.forward fun a => (hf a).forward⟩

/-- Behind a reader that leaves the mark, no run stays there. -/
theorem Leaves.bind (hp : Leaves fork k false p) (hf : ∀ a, Agrees fork k loose (f a)) :
    Leaves fork k loose (p >>= f) :=
  hp.bind_loose hf nofun

/-- A reader that does not move agrees with itself if it finds the same on both inputs. -/
theorem Fork.Same.of_still {a b : α} {s' s'' : State} {x x' : List Located}
    (h : (Except.ok (b, s''.at (fork.first x)) : Except Failure (α × State)) =
      .ok (a, s'.at (fork.first x'))) :
    fork.Same a s' x' (.ok (b, s''.at (fork.second x))) := by
  obtain ⟨rfl, hstate⟩ := Prod.mk.inj (Except.ok.inj h)
  obtain ⟨rfl, hstates⟩ := Fork.at_eq hstate
  exact .inl (by rw [hstates])

/-- The two cases of a reader that agrees wherever it starts, as one. -/
theorem Agrees.of_same (hforward : Forward p)
    (h : ∀ (s : State) (x : List Located) (a : α) (s' : State) (x' : List Located),
      p.run (s.at (fork.first x)) = .ok (a, s'.at (fork.first x')) → k ≤ x'.length →
        loose = true ∧ fork.Doomed x' ∨ fork.Same a s' x' (p.run (s.at (fork.second x)))) :
    Agrees fork k loose p := by
  refine ⟨⟨hforward, fun s x a s' x' _ => h s x a s' x'⟩, fun hk s a s' hrun => ?_⟩
  refine (h s [] a s' [] hrun (Nat.le_of_eq hk)).resolve_left ?_
  rintro ⟨-, -, here, hnil, -⟩
  cases hnil

/-- What takes nothing stays in its place on both inputs. -/
theorem agrees_pure (a : α) : Agrees fork k loose (pure a : Parser α) :=
  ⟨⟨forward_pure a, fun _ _ _ _ _ _ hrun _ => .inr (.of_still hrun)⟩,
    fun _ _ _ _ hrun => .of_still hrun⟩

theorem concurs_pure (a : α) : Concurs fork k loose (pure a : Parser α) :=
  (agrees_pure a).toConcurs

theorem atMark_pure (a : α) : AtMark fork (pure a) (pure a) := fun _ _ _ hrun => .of_still hrun

/-- It stays at a doomed place as well. -/
theorem absorbs_pure (a : α) : Absorbs fork true (pure a : Parser α) := by
  intro here s b s' x' hdoomed hrun
  obtain ⟨rfl, -⟩ := Fork.at_eq (Prod.mk.inj (Except.ok.inj hrun)).2
  exact ⟨rfl, hdoomed⟩

/-! ### Readers that fail -/

/-- The reader fails on the tokens, whatever else is in the state. -/
def FailsOn (tokens : List Located) (p : Parser α) : Prop :=
  ∀ s : State, ∃ failure, p.run (s.at tokens) = .error failure

/-- What follows a reader that fails is not reached. -/
theorem FailsOn.bind (h : FailsOn tokens p) (f : α → Parser β) : FailsOn tokens (p >>= f) := by
  intro s
  obtain ⟨failure, hrun⟩ := h s
  refine ⟨failure, ?_⟩
  rw [Parser.run_bind, hrun]
  rfl

/-- A run that fails at the mark does not stay there. -/
theorem FailsOn.clears (h : FailsOn (fork.first []) p) : Clears fork p := by
  intro s a s' x' hrun
  obtain ⟨failure, herror⟩ := h s
  rw [herror] at hrun
  cases hrun

/-- A reader that always fails agrees with itself everywhere. -/
theorem leaves_of_fails (h : ∀ s, ∃ failure, p.run s = .error failure) : Leaves fork k loose p := by
  have hnever : ∀ s a s', p.run s ≠ .ok (a, s') := by
    intro s a s' hrun
    obtain ⟨failure, herror⟩ := h s
    rw [herror] at hrun
    cases hrun
  exact ⟨⟨fun s a s' hrun => absurd hrun (hnever s a s'),
    fun s x a s' x' _ hrun => absurd hrun (hnever _ _ _)⟩, fun _ s a s' x' => hnever _ _ _⟩

theorem leaves_fail (fault : Fault) : Leaves fork k loose (fail fault : Parser α) :=
  leaves_of_fails fun _ => ⟨_, rfl⟩

theorem leaves_unexpected : Leaves fork k loose (unexpected : Parser α) :=
  leaves_of_fails fun _ => ⟨_, rfl⟩

theorem leaves_expected (what : Expectation) : Leaves fork k loose (expected what : Parser α) :=
  leaves_of_fails fun _ => ⟨_, rfl⟩

/-! ### Readers that do not see the place -/

/-- The reader neither sees nor moves the place. -/
def Still (p : Parser α) : Prop :=
  ∀ (s : State) (a : α) (s' : State) (tokens : List Located),
    p.run (s.at tokens) = .ok (a, s') →
      s'.cursor = .ofTokens tokens ∧ ∀ others, p.run (s.at others) = .ok (a, s'.at others)

theorem still_pure (a : α) : Still (pure a : Parser α) := by
  intro s b s' tokens hrun
  cases hrun
  exact ⟨rfl, fun _ => rfl⟩

/-- A change of the rest of the state. -/
theorem still_modify {change : State → State}
    (h : ∀ s tokens, change (s.at tokens) = (change s).at tokens) :
    Still (modify change : Parser Unit) := by
  intro s a s' tokens hrun
  obtain ⟨-, rfl⟩ := Prod.mk.inj (Except.ok.inj hrun)
  rw [h]
  refine ⟨rfl, fun others => ?_⟩
  show Except.ok ((), change (s.at others)) = _
  rw [h]
  rfl

theorem still_declare (name : String) : Still (declare name) := still_modify fun _ _ => rfl

/-- Readers in a sequence do not see the place if none of them does. -/
theorem Still.bind (hp : Still p) (hf : ∀ a, Still (f a)) : Still (p >>= f) := by
  intro s b s'' tokens hrun
  obtain ⟨a, s', hfirst, hsecond⟩ := exists_of_run_bind hrun
  obtain ⟨hcursor, hfirst'⟩ := hp s a s' tokens hfirst
  have hplace : s'.at tokens = s' := by
    rw [State.at, ← hcursor]
  rw [← hplace] at hsecond
  obtain ⟨hcursor', hsecond'⟩ := hf a s' b s'' tokens hsecond
  exact ⟨hcursor', fun others => (run_bind_ok (hfirst' others) f).trans (hsecond' others)⟩

/-- A look at the rest of the state. -/
theorem Still.get_bind {f : State → Parser α} (hlook : ∀ s tokens, f (s.at tokens) = f s)
    (hf : ∀ s, Still (f s)) : Still (get >>= f) := by
  intro s a s' tokens hrun
  rw [run_get_bind, hlook] at hrun
  obtain ⟨hcursor, hruns⟩ := hf s s a s' tokens hrun
  refine ⟨hcursor, fun others => ?_⟩
  rw [run_get_bind, hlook]
  exact hruns others

/-- The place that is left is the one that was found. -/
theorem Still.forward (hp : Still p) : Forward p := by
  intro s a s' hrun
  have hplace : s.at s.cursor.tokens = s := State.at_tokens rfl
  rw [← hplace] at hrun
  rw [(hp s a s' _ hrun).1]
  exact suffix_refl _

/-- What it does on one input it does on the other. -/
theorem Still.run_second (hp : Still p) {s s' : State} {a : α} {x x' : List Located}
    (hrun : p.run (s.at (fork.first x)) = .ok (a, s'.at (fork.first x'))) :
    x = x' ∧ fork.Same a s' x' (p.run (s.at (fork.second x))) := by
  obtain ⟨hcursor, hruns⟩ := hp s a _ _ hrun
  have htokens := congrArg Cursor.tokens hcursor
  rw [State.tokens_at _ (Fork.first_ne_nil _),
    Cursor.tokens_ofTokens (Fork.first_ne_nil _)] at htokens
  obtain rfl := Fork.first_injective htokens
  exact ⟨rfl, .inl (hruns _)⟩

/-- Such a reader agrees with itself on any two inputs. -/
theorem Still.agrees (hp : Still p) : Agrees fork k loose p :=
  ⟨⟨hp.forward, fun _ _ _ _ _ _ hrun _ => .inr (hp.run_second hrun).2⟩,
    fun _ _ _ _ hrun => (hp.run_second hrun).2⟩

/-- What comes behind it starts in the same place. -/
theorem Still.concurs_bind (hp : Still p) (hf : ∀ a, Concurs fork k loose (f a)) :
    Concurs fork k loose (p >>= f) := by
  have hforwards : ∀ a, Forward (f a) := fun a => (hf a).forward
  refine ⟨hp.forward.bind hforwards, ?_⟩
  intro s x b s' x' hx hrun hlength
  obtain ⟨a, s₁, y, hfirst, hsecond, -, -⟩ := exists_first_of_run_bind hp.forward hforwards hrun
  obtain ⟨rfl, hsame⟩ := hp.run_second hfirst
  exact ((hf a).same s₁ x b s' x' hx hsecond hlength).imp_right hsame.bind

/-- What fails behind it fails with it. -/
theorem Still.failsOn_bind (hp : Still p) (hf : ∀ a, FailsOn tokens (f a)) :
    FailsOn tokens (p >>= f) := by
  intro s
  cases hrun : p.run (s.at tokens) with
  | error failure =>
    refine ⟨failure, ?_⟩
    rw [Parser.run_bind, hrun]
    rfl
  | ok result =>
    obtain ⟨a, s'⟩ := result
    have hplace : s'.at tokens = s' := by
      rw [State.at, ← (hp s a s' tokens hrun).1]
    rw [run_bind_ok hrun, ← hplace]
    exact hf a s'

/-! ### Looks -/

/-- A reader that only looks at the state. -/
def Looks (p : Parser α) (value : State → α) : Prop := ∀ s, p.run s = .ok (value s, s)

/-- What follows a look gets its value, in the same state. -/
theorem Looks.run_bind {value : State → α} (hp : Looks p value) (f : α → Parser β) (s : State) :
    (p >>= f).run s = (f (value s)).run s :=
  run_bind_ok (hp s) f

theorem Looks.run_bind_of_eq {value : State → α} (hp : Looks p value) {s : State} {a : α}
    (ha : value s = a) (f : α → Parser β) : (p >>= f).run s = (f a).run s := by
  rw [hp.run_bind, ha]

theorem Looks.forward_bind {value : State → α} (hp : Looks p value) (hf : ∀ a, Forward (f a)) :
    Forward (p >>= f) := by
  intro s b s' hrun
  rw [hp.run_bind] at hrun
  exact hf _ s b s' hrun

/-- A look that leads to the same on both inputs does not tell them apart. -/
theorem Looks.bind {value : State → α} (hp : Looks p value)
    (hvalue : ∀ (s : State) (x : List Located), x ≠ [] →
      f (value (s.at (fork.first x))) = f (value (s.at (fork.second x))))
    (hf : ∀ a, Concurs fork k loose (f a)) : Concurs fork k loose (p >>= f) := by
  refine ⟨hp.forward_bind fun a => (hf a).forward, ?_⟩
  intro s x b s' x' hx hrun hlength
  rw [hp.run_bind] at hrun
  rw [hp.run_bind, ← hvalue s x hx]
  exact (hf _).same s x b s' x' hx hrun hlength

/-- A look at the mark leaves it to the next reader to go on. -/
theorem Looks.clears {value : State → α} (hp : Looks p value) (hf : ∀ a, Clears fork (f a)) :
    Clears fork (p >>= f) := by
  intro s b s' x' hrun
  rw [hp.run_bind] at hrun
  exact hf _ s b s' x' hrun

theorem looks_current : Looks current fun s => s.cursor.current := fun _ => rfl

theorem looks_line : Looks line fun s => s.cursor.current.line := fun _ => rfl

theorem looks_isAt (token : Token) : Looks (isAt token) fun s => s.cursor.current.token == token :=
  fun _ => rfl

theorem looks_isAtCallParen :
    Looks isAtCallParen fun s => s.cursor.current.token == .lparen && !s.cursor.current.spaced :=
  fun _ => rfl

theorem looks_startsExpression :
    Looks Parser.startsExpression fun s => s.cursor.current.token.startsExpression := fun _ => rfl

/-- A look ahead changes nothing. -/
theorem looks_peek (offset : Nat) : Looks (peek offset) fun s => s.cursor.peek offset :=
  fun _ => rfl

/-- The current token is the same on both inputs. -/
theorem Fork.current_eq {x : List Located} (hx : x ≠ []) (s : State) :
    (s.at (fork.first x)).cursor.current = (s.at (fork.second x)).cursor.current := by
  obtain ⟨here, ahead, rfl⟩ := exists_cons_of_ne_nil hx
  rfl

/-- A look at the current token finds the same before the marks. -/
theorem concurs_current_bind {f : Located → Parser β}
    (hf : ∀ here, Concurs fork k loose (f here)) :
    Concurs fork k loose (current >>= f) :=
  looks_current.bind (fun s _ hx => congrArg f (Fork.current_eq hx s)) hf

theorem concurs_line_bind {f : Nat → Parser β} (hf : ∀ n, Concurs fork k loose (f n)) :
    Concurs fork k loose (line >>= f) :=
  looks_line.bind (fun s _ hx => congrArg (f ·.line) (Fork.current_eq hx s)) hf

theorem concurs_isAt_bind {f : Bool → Parser β} (token : Token)
    (hf : ∀ b, Concurs fork k loose (f b)) : Concurs fork k loose (isAt token >>= f) :=
  (looks_isAt token).bind
    (fun s _ hx => congrArg (fun here : Located => f (here.token == token))
      (Fork.current_eq hx s)) hf

theorem concurs_isAtCallParen_bind {f : Bool → Parser β}
    (hf : ∀ b, Concurs fork k loose (f b)) :
    Concurs fork k loose (isAtCallParen >>= f) :=
  looks_isAtCallParen.bind
    (fun s _ hx => congrArg (fun here : Located => f (here.token == .lparen && !here.spaced))
      (Fork.current_eq hx s)) hf

theorem concurs_startsExpression_bind {f : Bool → Parser β}
    (hf : ∀ b, Concurs fork k loose (f b)) :
    Concurs fork k loose (Parser.startsExpression >>= f) :=
  looks_startsExpression.bind
    (fun s _ hx => congrArg (fun here : Located => f here.token.startsExpression)
      (Fork.current_eq hx s)) hf

/-- A look at the rest of the state. -/
theorem concurs_get_bind {f : State → Parser β} (hlook : ∀ s tokens, f (s.at tokens) = f s)
    (hf : ∀ s, Concurs fork k loose (f s)) : Concurs fork k loose (get >>= f) := by
  refine ⟨fun s b s' hrun => (hf s).forward s b s' hrun, ?_⟩
  intro s x b s' x' hx hrun hlength
  rw [run_get_bind, hlook] at hrun ⊢
  exact (hf s).same s x b s' x' hx hrun hlength

/-- Which variables are in scope does not depend on the tokens. -/
theorem concurs_isLocal_bind {f : Bool → Parser β} (name : String)
    (hf : ∀ b, Concurs fork k loose (f b)) :
    Concurs fork k loose (isLocal name >>= f) :=
  concurs_get_bind (f := fun s => pure (Scope.sees name s.scopes) >>= f) (fun _ _ => rfl)
    fun _ => hf _

/-- A look does not help a run to stay at the mark. -/
theorem leaves_current_bind {f : Located → Parser β} (hf : ∀ here, Leaves fork k loose (f here)) :
    Leaves fork k loose (current >>= f) :=
  ⟨concurs_current_bind fun here => (hf here).toConcurs,
    fun hk => looks_current.clears fun here => (hf here).clears hk⟩

theorem leaves_line_bind {f : Nat → Parser β} (hf : ∀ n, Leaves fork k loose (f n)) :
    Leaves fork k loose (line >>= f) :=
  ⟨concurs_line_bind fun n => (hf n).toConcurs,
    fun hk => looks_line.clears fun n => (hf n).clears hk⟩

theorem leaves_isAt_bind {f : Bool → Parser β} (token : Token)
    (hf : ∀ b, Leaves fork k loose (f b)) : Leaves fork k loose (isAt token >>= f) :=
  ⟨concurs_isAt_bind token fun b => (hf b).toConcurs,
    fun hk => (looks_isAt token).clears fun b => (hf b).clears hk⟩

/-! ### Readers that move -/

/-- Behind the current token the inputs are still the same, or the marks come. -/
theorem concurs_advance_bind {f : Unit → Parser β} (hf : Agrees fork k loose (f ())) :
    Concurs fork k loose (advance >>= f) := by
  refine ⟨?_, ?_⟩
  · intro s b s' hrun
    exact (hf.forward _ b s' hrun).trans s.cursor.tokens_advance
  · intro s x b s' x' hx hrun hlength
    obtain ⟨here, y, rfl⟩ := exists_cons_of_ne_nil hx
    rw [Fork.first_cons, run_advance_bind (Fork.first_ne_nil _)] at hrun
    rw [Fork.second_cons, run_advance_bind (Fork.second_ne_nil _)]
    exact hf.same_of_run hrun hlength

/-- Whether a token is taken or not, the readers go forward. -/
theorem forward_eat_bind {f : Bool → Parser β} (hf : ∀ b, Forward (f b)) :
    Forward (eat token >>= f) := by
  intro s b s' hrun
  have hplace : s.at s.cursor.tokens = s := State.at_tokens rfl
  rw [← hplace, Cursor.tokens] at hrun
  obtain ⟨a, s₁, hfirst, hsecond⟩ := exists_of_run_bind hrun
  refine (hf a s₁ b s' hsecond).trans ?_
  rw [eat, run_isAt_bind] at hfirst
  split at hfirst
  · cases hfirst
    exact s.cursor.tokens_advance
  · cases hfirst
    exact suffix_refl _

/-- A token is taken on both inputs or on none. -/
theorem concurs_eat_bind {f : Bool → Parser β} (htaken : Agrees fork k loose (f true))
    (hleft : Concurs fork k loose (f false)) :
    Concurs fork k loose (eat token >>= f) := by
  have hforward : Forward (eat token >>= f) :=
    forward_eat_bind fun b => by cases b; exacts [hleft.forward, htaken.forward]
  refine ⟨hforward, ?_⟩
  intro s x b s' x' hx hrun hlength
  obtain ⟨here, y, rfl⟩ := exists_cons_of_ne_nil hx
  -- before the marks both inputs have the same token
  by_cases hhere : here.token = token
  · have htake := (concurs_advance_bind (f := fun _ => f true) htaken).same
      s (here :: y) b s' x' hx
    rw [Fork.first_cons, run_eat_bind_of_eq hhere (Fork.first_ne_nil _)] at hrun
    rw [Fork.first_cons, run_advance_bind (Fork.first_ne_nil _), Fork.second_cons,
      run_advance_bind (Fork.second_ne_nil _)] at htake
    rw [Fork.second_cons, run_eat_bind_of_eq hhere (Fork.second_ne_nil _)]
    exact htake hrun hlength
  · rw [Fork.first_cons, run_eat_bind_of_ne hhere] at hrun
    rw [Fork.second_cons, run_eat_bind_of_ne hhere]
    exact hleft.same s (here :: y) b s' x' hx hrun hlength

/-- Before the marks both runs take the token or neither does. -/
theorem concurs_eat (token : Token) : Concurs fork k loose (eat token) := by
  rw [← bind_pure (eat token)]
  exact concurs_eat_bind (agrees_pure true) (concurs_pure false)

/-- The same for a choice between two readers. -/
theorem concurs_eat_ite {p q : Parser β} (hp : Agrees fork k loose p)
    (hq : Concurs fork k loose q) :
    Concurs fork k loose (eat token >>= fun taken => if taken = true then p else q) :=
  concurs_eat_bind hp hq

/-- A reader that has passed over the mark does not come back to it. -/
theorem Forward.ne_first_of_rest (hp : Forward p) {s s' : State} {a : α} {x' : List Located}
    (hrest : fork.rest ≠ []) :
    p.run (s.at fork.rest) ≠ .ok (a, s'.at (fork.first x')) := by
  intro hrun
  -- there are fewer tokens left than the mark and the rest
  have hlength := (hp _ a _ hrun).length_le
  rw [State.tokens_at _ (Fork.first_ne_nil _), State.tokens_at _ hrest, Fork.length_first]
    at hlength
  omega

/-- Only the end of the input is such a mark. -/
theorem Fork.kind_ne_line (h : fork.mark.token ≠ .done) : fork.kind ≠ .line := by
  intro hkind
  rw [fork.token, hkind] at h
  exact h rfl

/-- Taking a token does not stay at the mark, if leaving it does not. -/
theorem clears_eat_bind {f : Bool → Parser β} (htoken : token ≠ .done) (htaken : Forward (f true))
    (hleft : Clears fork (f false)) :
    Clears fork (eat token >>= f) := by
  intro s b s' x' hrun
  by_cases hmark : fork.mark.token = token
  · -- the mark is taken, and it is passed over since it is not the end of the input
    have hrest : fork.rest ≠ [] := fork.rest_ne (Fork.kind_ne_line (hmark ▸ htoken))
    rw [show fork.first [] = fork.mark :: fork.rest from rfl,
      run_eat_bind_of_eq hmark hrest] at hrun
    exact htaken.ne_first_of_rest hrest hrun
  · rw [show fork.first [] = fork.mark :: fork.rest from rfl, run_eat_bind_of_ne hmark] at hrun
    exact hleft s b s' x' hrun

/-- A run that takes the mark is behind it, and does not come back. -/
theorem leaves_eat_bind {f : Bool → Parser β} (htoken : token ≠ .done)
    (htaken : Agrees fork k loose (f true)) (hleft : Leaves fork k loose (f false)) :
    Leaves fork k loose (eat token >>= f) :=
  ⟨concurs_eat_bind htaken hleft.toConcurs,
    fun hk => clears_eat_bind htoken htaken.forward (hleft.clears hk)⟩

/-- The same for a choice between two readers. -/
theorem leaves_eat_ite {p q : Parser β} (htoken : token ≠ .done) (hp : Agrees fork k loose p)
    (hq : Leaves fork k loose q) :
    Leaves fork k loose (eat token >>= fun taken => if taken = true then p else q) :=
  leaves_eat_bind htoken hp hq

/-- A token that has to come does not leave the run at the mark. -/
theorem leaves_expect_bind {f : Unit → Parser β} (text : String) (htoken : token ≠ .done)
    (hf : Agrees fork k loose (f ())) :
    Leaves fork k loose (expect token text >>= f) := by
  have heq : expect token text >>= f =
      eat token >>= fun taken => (if taken then pure () else expected (.mark text)) >>= f := by
    rw [expect, bind_assoc]
  rw [heq]
  exact leaves_eat_bind htoken hf
    (leaves_of_fails fun s => ⟨⟨s.file, s.cursor.current.line, _⟩, rfl⟩)

theorem Cursor.skip_cons {skipped : Token → Bool} {here : Located} {ahead : List Located}
    (h : skipped here.token = true) (hne : ahead ≠ []) :
    Cursor.skip skipped ⟨here, ahead⟩ = Cursor.skip skipped (.ofTokens ahead) := by
  obtain ⟨next, others, rfl⟩ := exists_cons_of_ne_nil hne
  exact Cursor.skip_of_true h

/-- Tokens that are passed over before the marks are passed over on both inputs. -/
theorem Fork.skip_second {skipped : Token → Bool} {x x' : List Located} (hx' : x' ≠ [])
    (h : (Cursor.ofTokens (fork.first x)).skip skipped = .ofTokens (fork.first x')) :
    (Cursor.ofTokens (fork.second x)).skip skipped = .ofTokens (fork.second x') := by
  induction x with
  | nil =>
    -- the first run is at the mark already, so what it leaves is not before it
    have hsuffix := (Cursor.ofTokens (fork.first [])).tokens_skip skipped
    rw [h, Cursor.tokens_ofTokens (Fork.first_ne_nil _),
      Cursor.tokens_ofTokens (Fork.first_ne_nil _)] at hsuffix
    obtain ⟨y, hy, hx, -⟩ := Fork.exists_first_between hsuffix (suffix_refl _)
    obtain rfl := Fork.first_injective hy
    exact absurd (suffix_nil.1 hx) hx'
  | cons here y ih =>
    rw [Fork.first_cons, Cursor.ofTokens_cons] at h
    rw [Fork.second_cons, Cursor.ofTokens_cons]
    cases hskipped : skipped here.token with
    | true =>
      rw [Cursor.skip_cons hskipped (Fork.first_ne_nil _)] at h
      rw [Cursor.skip_cons hskipped (Fork.second_ne_nil _)]
      exact ih h
    | false =>
      rw [Cursor.skip_of_false hskipped] at h
      rw [Cursor.skip_of_false hskipped]
      have htokens := congrArg Cursor.tokens h
      rw [Cursor.tokens_ofTokens (Fork.first_ne_nil _)] at htokens
      obtain rfl : here :: y = x' := Fork.first_injective htokens
      rfl

/-- Passing over tokens says nothing about the marks. -/
theorem concurs_skip (skipped : Token → Bool) :
    Concurs fork 1 loose
      (modify fun s => { s with cursor := s.cursor.skip skipped } : Parser Unit) := by
  refine ⟨?_, ?_⟩
  · intro s a s' hrun
    cases hrun
    exact s.cursor.tokens_skip skipped
  · intro s x a s' x' _ hrun hlength
    -- the first run stops before its mark, at a token that stops the second one too
    have hstate := (Prod.mk.inj (Except.ok.inj hrun)).2
    have hskip := Fork.skip_second (length_pos_iff.1 hlength)
      (congrArg (fun state : State => state.cursor) hstate)
    have hrest := congrArg (State.at · (fork.second x')) hstate
    refine .inr (.inl ?_)
    show Except.ok ((), { s with cursor := (Cursor.ofTokens (fork.second x)).skip skipped }) = _
    rw [hskip]
    exact congrArg (fun state => Except.ok ((), state)) hrest

theorem concurs_skipNewlines : Concurs fork 1 loose skipNewlines := concurs_skip _

theorem concurs_skipTerminators : Concurs fork 1 loose skipTerminators :=
  concurs_skip _

/-! ### At the marks -/

/-- A sequence that starts at the mark and stays there stays in each of its readers. -/
theorem Agrees.bind_loose (hp : Agrees fork k loose p) (hf : ∀ a, Agrees fork k loose' (f a))
    (habsorbs : loose = true → ∀ a, Absorbs fork loose' (f a)) :
    Agrees fork k loose' (p >>= f) := by
  refine ⟨hp.toConcurs.bind_loose hf habsorbs, ?_⟩
  intro hk s b s' hrun
  obtain ⟨a, s₁, y, hfirst, hsecond, -, hy⟩ :=
    exists_first_of_run_bind hp.forward (fun a => (hf a).forward) hrun
  obtain rfl := suffix_nil.1 hy
  exact (hp.atMark hk s a s₁ hfirst).bind ((hf a).atMark hk s₁ b s' hsecond)

/-- Agreement goes from a reader to the one behind it. -/
theorem Agrees.bind (hp : Agrees fork k false p) (hf : ∀ a, Agrees fork k loose (f a)) :
    Agrees fork k loose (p >>= f) :=
  hp.bind_loose hf nofun

/-- The marks that are no opening ones. -/
theorem Fork.marks (h : fork.least = 0) :
    fork.mark.token = .done ∧ fork.mark'.token = .newline ∨
      fork.mark.token = .rbrace ∧ fork.mark'.token = .word "end" := by
  have hkind : fork.kind ≠ .opening := by
    intro hkind
    rw [Fork.least, if_pos hkind] at h
    cases h
  rw [fork.token, fork.token']
  cases hfork : fork.kind with
  | line => exact .inl ⟨rfl, rfl⟩
  | closing => exact .inr ⟨rfl, rfl⟩
  | opening => exact absurd hfork hkind

/-- A look at the marks that leads to readers that agree there. -/
theorem Looks.atMark {value : State → α} {a a' : α} (hp : Looks p value)
    (ha : ∀ s : State, value (s.at (fork.first [])) = a)
    (ha' : ∀ s : State, value (s.at (fork.second [])) = a') (h : AtMark fork (f a) (g a')) :
    AtMark fork (p >>= f) (p >>= g) := by
  intro s b s' hrun
  rw [hp.run_bind, ha] at hrun
  rw [hp.run_bind, ha']
  exact h s b s' hrun

theorem AtMark.current {f g : Located → Parser β} (h : AtMark fork (f fork.mark) (g fork.mark')) :
    AtMark fork (Parser.current >>= f) (Parser.current >>= g) :=
  h

theorem AtMark.line {f g : Nat → Parser β}
    (h : AtMark fork (f fork.mark.line) (g fork.mark'.line)) :
    AtMark fork (Parser.line >>= f) (Parser.line >>= g) :=
  h

/-- A look for a token that is neither of the marks fails on both inputs. -/
theorem AtMark.isAt {f g : Bool → Parser β} (hmark : fork.mark.token ≠ token)
    (hmark' : fork.mark'.token ≠ token) (h : AtMark fork (f false) (g false)) :
    AtMark fork (Parser.isAt token >>= f) (Parser.isAt token >>= g) := by
  intro s b s' hrun
  rw [Fork.first, nil_append, run_isAt_bind, beq_eq_false_iff_ne.2 hmark] at hrun
  rw [Fork.second, nil_append, run_isAt_bind, beq_eq_false_iff_ne.2 hmark']
  exact h s b s' hrun

/-- A token that is no mark is not taken at the marks. -/
theorem AtMark.eat {f g : Bool → Parser β} (htoken : token.isMark = false)
    (h : AtMark fork (f false) (g false)) :
    AtMark fork (Parser.eat token >>= f) (Parser.eat token >>= g) := by
  intro s b s' hrun
  rw [Fork.first, nil_append, run_eat_bind_of_ne (Fork.mark_ne htoken)] at hrun
  rw [Fork.second, nil_append, run_eat_bind_of_ne (Fork.mark'_ne htoken)]
  exact h s b s' hrun

/-- No mark is a parenthesis. -/
theorem AtMark.isAtCallParen {f g : Bool → Parser β} (h : AtMark fork (f false) (g false)) :
    AtMark fork (Parser.isAtCallParen >>= f) (Parser.isAtCallParen >>= g) := by
  intro s b s' hrun
  rw [Fork.first, nil_append, run_isAtCallParen_bind, Fork.mark_beq rfl] at hrun
  rw [Fork.second, nil_append, run_isAtCallParen_bind, Fork.mark'_beq rfl]
  exact h s b s' hrun

/-- No expression starts at the marks. -/
theorem AtMark.startsExpression {f g : Bool → Parser β} (hleast : fork.least = 0)
    (h : AtMark fork (f false) (g false)) :
    AtMark fork (Parser.startsExpression >>= f) (Parser.startsExpression >>= g) := by
  intro s b s' hrun
  rw [Fork.first, nil_append, run_startsExpression_bind] at hrun
  rw [Fork.second, nil_append, run_startsExpression_bind]
  rcases Fork.marks hleast with ⟨hmark, hmark'⟩ | ⟨hmark, hmark'⟩ <;>
    rw [hmark] at hrun <;> rw [hmark'] <;> exact h s b s' hrun

/-- A look at the rest of the state finds the same at both marks. -/
theorem AtMark.get {f g : State → Parser β} (hf : ∀ s tokens, f (s.at tokens) = f s)
    (hg : ∀ s tokens, g (s.at tokens) = g s) (h : ∀ s, AtMark fork (f s) (g s)) :
    AtMark fork (MonadState.get >>= f) (MonadState.get >>= g) := by
  intro s b s' hrun
  rw [run_get_bind, hf] at hrun
  rw [run_get_bind, hg]
  exact h s s b s' hrun

/-- Only a reader behind the parenthesis may be asked for less. -/
theorem agrees_isAtCallParen_ite {p q : Parser β} (hp : Concurs fork k loose p)
    (hq : Agrees fork k loose q) :
    Agrees fork k loose (isAtCallParen >>= fun paren => if paren = true then p else q) := by
  refine ⟨concurs_isAtCallParen_bind fun paren => ?_, fun hk => .isAtCallParen (hq.atMark hk)⟩
  split
  · exact hp
  · exact hq.toConcurs

/-- A look at the variables in scope, also at the marks. -/
theorem agrees_isLocal_bind {f : Bool → Parser β} (name : String)
    (hf : ∀ b, Agrees fork k loose (f b)) : Agrees fork k loose (isLocal name >>= f) :=
  ⟨concurs_isLocal_bind name fun b => (hf b).toConcurs, fun hk s b s' hrun =>
    (hf (Scope.sees name s.scopes)).atMark hk s b s' hrun⟩

/-- What may be left out is left out at the marks. -/
theorem agrees_startsExpression_ite {p q : Parser β} (hp : Concurs fork fork.least loose p)
    (hq : Agrees fork fork.least loose q) :
    Agrees fork fork.least loose
      (Parser.startsExpression >>= fun starts => if starts = true then p else q) := by
  refine ⟨concurs_startsExpression_bind fun starts => ?_,
    fun hk => .startsExpression hk (hq.atMark hk)⟩
  split
  · exact hp
  · exact hq.toConcurs

/-! ### At a doomed place -/

/-- A reader that does not move stays at a doomed place. -/
theorem Still.absorbs (hp : Still p) : Absorbs fork true p := by
  intro here s a s' x' hdoomed hrun
  obtain ⟨rfl, -⟩ := hp.run_second hrun
  exact ⟨rfl, hdoomed⟩

theorem absorbs_line_bind {f : Nat → Parser β} (hf : ∀ n, Absorbs fork loose (f n)) :
    Absorbs fork loose (line >>= f) :=
  fun here s b s' x' hdoomed hrun => hf _ here s b s' x' hdoomed hrun

/-- At a doomed place only a `&` is found. -/
theorem absorbs_isAt_bind {f : Bool → Parser β} (htoken : token ≠ .op (.binary .bitAnd))
    (hf : Absorbs fork loose (f false)) :
    Absorbs fork loose (isAt token >>= f) := by
  intro here s b s' x' hdoomed hrun
  obtain ⟨-, there, hthere, hhere⟩ := id hdoomed
  obtain rfl := singleton_inj.1 hthere
  have hat : (here.token == token) = false := beq_eq_false_iff_ne.2 (hhere ▸ htoken.symm)
  rw [Fork.first_cons, run_isAt_bind, hat] at hrun
  exact hf here s b s' x' hdoomed hrun

/-- Nor is anything else taken there. -/
theorem absorbs_eat_bind {f : Bool → Parser β} (htoken : token ≠ .op (.binary .bitAnd))
    (hf : Absorbs fork loose (f false)) :
    Absorbs fork loose (eat token >>= f) := by
  intro here s b s' x' hdoomed hrun
  obtain ⟨-, there, hthere, hhere⟩ := id hdoomed
  obtain rfl := singleton_inj.1 hthere
  rw [Fork.first_cons, run_eat_bind_of_ne (hhere ▸ htoken.symm)] at hrun
  exact hf here s b s' x' hdoomed hrun

/-! ### Readers in a changed state -/

/-- Readers that come to the same ends; where they fail, they may do so for different reasons. -/
def SameEnds (p q : Parser α) : Prop := ∀ s found, p.run s = .ok found ↔ q.run s = .ok found

/-- To do something in any case is to do it behind a reader, for the runs that come to an end. -/
theorem sameEnds_finally (p : Parser α) (leave : Parser Unit) :
    SameEnds (tryFinally p leave) (p >>= fun a => leave >>= fun _ => pure a) := by
  intro s found
  cases hrun : p.outcome s with
  | ok a s' =>
    have hp := run_eq_ok_iff.2 hrun
    rw [run_finally hp, run_bind_ok hp]
  -- a run that fails ends with a failure, whatever is done last
  | error failure s' =>
    unfold Parser.run
    rw [outcome_finally_of_error hrun, outcome_bind_of_error hrun]
    cases hleave : leave.outcome s' with
    | ok _ s'' =>
      rw [outcome_bind_of_ok hleave]
      exact Iff.rfl
    | error failure' s'' =>
      rw [outcome_bind_of_error hleave]
      simp

/-- Where one of the readers fails, so does the other. -/
theorem SameEnds.exists_error (h : SameEnds p q) {s : State} {failure : Failure}
    (hrun : q.run s = .error failure) : ∃ failure', p.run s = .error failure' := by
  cases hp : p.run s with
  | error failure' => exact ⟨failure', rfl⟩
  | ok found =>
    rw [(h s found).1 hp] at hrun
    cases hrun

/-- Agreement is about runs that come to their end, and about which runs fail. -/
theorem Concurs.of_sameEnds (hq : Concurs fork k loose q) (h : SameEnds p q) :
    Concurs fork k loose p := by
  refine ⟨fun s a s' hrun => hq.forward s a s' ((h _ _).1 hrun), ?_⟩
  intro s x a s' x' hx hrun hlength
  refine (hq.same s x a s' x' hx ((h _ _).1 hrun) hlength).imp_right ?_
  rintro (hsame | ⟨hdiffers, failure, hfails⟩)
  · exact .inl ((h _ _).2 hsame)
  · exact .inr ⟨hdiffers, h.exists_error hfails⟩

/-- A reader between a change of the state and what takes the change back in any case. -/
theorem Concurs.between (hp : Concurs fork k loose p) {enter leave : Parser Unit}
    (henter : Still enter) (hleave : Still leave) :
    Concurs fork k loose (enter >>= fun _ => tryFinally p leave) := by
  have hback : ∀ a : α, Still (leave >>= fun _ => pure a) := fun a =>
    hleave.bind fun _ => still_pure a
  refine henter.concurs_bind fun _ => .of_sameEnds ?_ (sameEnds_finally p leave)
  refine hp.bind_loose (fun a => (hback a).agrees) ?_
  -- taking the change back does not move, so a doomed place stays one
  rintro rfl a
  exact (hback a).absorbs

/-- Neither the change nor taking it back moves the place. -/
theorem Clears.between (hp : Clears fork p) (hforward : Forward p) {enter leave : Parser Unit}
    (henter : Still enter) (hleave : Still leave) :
    Clears fork (enter >>= fun _ => tryFinally p leave) := by
  have hback : ∀ a : α, Forward (leave >>= fun _ => pure a) := fun a =>
    (hleave.bind fun _ => still_pure a).forward
  have hforwards : Forward (tryFinally p leave) := fun s a s' hrun =>
    hforward.bind hback s a s' ((sameEnds_finally p leave _ _).1 hrun)
  intro s b s' x' hrun
  obtain ⟨_, s₁, y, hfirst, hsecond, -, -⟩ :=
    exists_first_of_run_bind henter.forward (fun _ => hforwards) hrun
  obtain ⟨rfl, -⟩ := henter.run_second hfirst
  exact hp.bind hforward hback s₁ b s' x' ((sameEnds_finally p leave _ _).1 hsecond)

/-- Counting down the levels that have been left. -/
theorem still_countDown_bind {f : Nat → Parser β} (hf : ∀ n, Still (f n)) (levels : Nat) :
    Still (countDown levels >>= f) := by
  cases levels with
  | zero =>
    intro s a s' tokens hrun
    cases hrun
  | succ levels => exact hf levels

/-- The level of the nesting is left as it was entered. -/
theorem still_leaveLevel :
    Still (do
      let outer ← countDown (← get).depth
      modify fun s => { s with depth := outer } : Parser Unit) :=
  .get_bind (fun _ _ => rfl) fun s =>
    still_countDown_bind (fun _ => still_modify fun _ _ => rfl) s.depth

theorem still_leaveClaim :
    Still (do
      let outer ← countDown (← get).claimsDo
      modify fun s => { s with claimsDo := outer } : Parser Unit) :=
  .get_bind (fun _ _ => rfl) fun s =>
    still_countDown_bind (fun _ => still_modify fun _ _ => rfl) s.claimsDo

/-- Where the nesting is too deep, both runs fail. -/
theorem Concurs.nested (hp : Concurs fork k loose p) : Concurs fork k loose (nested p) := by
  refine concurs_get_bind (fun _ _ => rfl) fun s => ?_
  split
  · exact (leaves_of_fails fun _ => ⟨_, rfl⟩).toConcurs
  · exact hp.between (still_modify fun _ _ => rfl) still_leaveLevel

theorem Leaves.nested (hp : Leaves fork k loose p) : Leaves fork k loose (nested p) := by
  refine ⟨hp.toConcurs.nested, fun hk s a s' x' => ?_⟩
  rw [Parser.nested, run_get_bind]
  split
  · intro hrun
    cases hrun
  · exact (hp.clears hk).between hp.forward (still_modify fun _ _ => rfl) still_leaveLevel s a s' x'

theorem Concurs.leavingDo (hp : Concurs fork k loose p) : Concurs fork k loose (leavingDo p) :=
  hp.between (still_modify fun _ _ => rfl) still_leaveClaim

theorem Leaves.leavingDo (hp : Leaves fork k loose p) : Leaves fork k loose (leavingDo p) :=
  ⟨hp.toConcurs.leavingDo, fun hk =>
    (hp.clears hk).between hp.forward (still_modify fun _ _ => rfl) still_leaveClaim⟩

theorem Concurs.allowingDo (hp : Concurs fork k loose p) : Concurs fork k loose (allowingDo p) :=
  concurs_get_bind (fun _ _ => rfl) fun _ =>
    hp.between (still_modify fun _ _ => rfl) (still_modify fun _ _ => rfl)

theorem Leaves.allowingDo (hp : Leaves fork k loose p) : Leaves fork k loose (allowingDo p) := by
  refine ⟨hp.toConcurs.allowingDo, fun hk s a s' x' => ?_⟩
  rw [Parser.allowingDo, run_get_bind]
  exact (hp.clears hk).between hp.forward (still_modify fun _ _ => rfl)
    (still_modify fun _ _ => rfl) s a s' x'

theorem Concurs.closedByPipe (hp : Concurs fork k loose p) :
    Concurs fork k loose (closedByPipe p) :=
  concurs_get_bind (fun _ _ => rfl) fun _ =>
    hp.between (still_modify fun _ _ => rfl) (still_modify fun _ _ => rfl)

/-- A scope of its own does not keep a reader at the mark. -/
theorem Leaves.withScope (hard : Bool) (hp : Leaves fork k loose p) :
    Leaves fork k loose (withScope hard p) :=
  ⟨hp.toConcurs.between (still_modify fun _ _ => rfl) (still_modify fun _ _ => rfl),
    fun hk => (hp.clears hk).between hp.forward (still_modify fun _ _ => rfl)
      (still_modify fun _ _ => rfl)⟩

/-- What fails fails also where something is done in any case. -/
theorem FailsOn.withFinally (h : FailsOn tokens p) (leave : Parser Unit) :
    FailsOn tokens (tryFinally p leave) := by
  intro s
  obtain ⟨failure, hfails⟩ := h.bind (fun a => leave >>= fun _ => pure a) s
  exact (sameEnds_finally p leave).exists_error hfails

/-- A level of nesting more does not help a reader that fails. -/
theorem FailsOn.nested (h : FailsOn tokens p) : FailsOn tokens (nested p) := by
  intro s
  rw [Parser.nested, run_get_bind]
  split
  · exact ⟨_, rfl⟩
  · exact (still_modify fun _ _ => rfl).failsOn_bind (fun _ => h.withFinally _) s

theorem FailsOn.leavingDo (h : FailsOn tokens p) : FailsOn tokens (leavingDo p) :=
  (still_modify fun _ _ => rfl).failsOn_bind fun _ => h.withFinally _

end Combinators

end LaneScript
