import LaneScript.Proofs.ReadOperations
import LaneScript.Proofs.RoundTrip

/-!
# Operators group by their levels

Numbers with operators between them are read as one tree.  Which one is said here without a look at
the rules that read it, by two properties of a tree:

* `Node.InOrder` — read from left to right, the tree is the numbers and operators as they stand;
* `Node.Grouped` — the operands of a node are bound tighter than the node itself, where a level
  groups to the left and the power to the right.

There is at most one such tree for given tokens (`Node.Grouped.isOnlyTree`).  Of two operators that
could be the root of it, the one further left stands among the operands on the left of the other,
and the one further right among those on the right of the first; but no rank can be both at most and
above another.  And `parse` finds it, whatever the operators are and however often they change
(`parse_operators`).  The rules go down the levels to a number and come back up, so the induction
that follows them is on the levels, and on each level on the operators that are left.
-/

namespace LaneScript

open LaneScript.Parser
open List

/-! ### Trees of operators -/

/-- The place of an operator in the table of the levels.  The power, which is on none of them, is
behind the last. -/
def BinaryOp.rank (op : BinaryOp) : Nat := levels.findIdx (·.contains op)

/-- The node joins two operands by the operator.  `||` and `&&` make a logical operation of them,
and every other operator a binary one. -/
inductive Node.Joins : Node → BinaryOp → Node → Node → Prop where
  | or (left right : Node) (line : Nat) : Joins ⟨.logical .or left right, line⟩ .or left right
  | and (left right : Node) (line : Nat) : Joins ⟨.logical .and left right, line⟩ .and left right
  | binary {op : BinaryOp} (hor : op ≠ .or) (hand : op ≠ .and) (left right : Node) (line : Nat) :
      Joins ⟨.binary op left right, line⟩ op left right

/-- The tree is made of numbers and operators, and these are the tokens that it has from left to
right. -/
inductive Node.InOrder : Node → List Token → Prop where
  | number (value : Int) (line : Nat) : InOrder ⟨.int value, line⟩ [.int value]
  | joined {node left right : Node} {op : BinaryOp} {before behind : List Token}
      (hjoins : node.Joins op left right) (hleft : left.InOrder before)
      (hright : right.InOrder behind) : InOrder node (before ++ .op (.binary op) :: behind)

/-- The node is a number, or its operator has the rank or a tighter one. -/
def Node.BindsFrom (rank : Nat) (node : Node) : Prop :=
  ∀ op left right, node.Joins op left right → rank ≤ op.rank

/-- The operands of each node of the tree are bound as its operator asks.  The operator of a level
takes its own level on the left, and only tighter ones on the right.  The power takes a number on
the left, and on the right a number or a power. -/
inductive Node.Grouped : Node → Prop where
  | number (value : Int) (line : Nat) : Grouped ⟨.int value, line⟩
  | level {node left right : Node} {op : BinaryOp} (hjoins : node.Joins op left right)
      (hop : op ≠ .pow) (hleft : left.Grouped) (hright : right.Grouped)
      (hbinds : left.BindsFrom op.rank) (hbinds' : right.BindsFrom (op.rank + 1)) : Grouped node
  | power {node right : Node} {value : Int} {line : Nat}
      (hjoins : node.Joins .pow ⟨.int value, line⟩ right) (hright : right.Grouped)
      (hbinds : right.BindsFrom BinaryOp.pow.rank) : Grouped node

namespace BinaryOp

/-- Only the power is behind all levels. -/
theorem eq_pow_of_rank_le {op : BinaryOp} (h : pow.rank ≤ op.rank) : op = .pow := by
  revert h
  cases op <;> decide

/-- The operators of a level are those whose rank is its place in the table. -/
theorem mem_level_iff {looser tighter : List (List BinaryOp)} {level : List BinaryOp}
    (h : looser ++ level :: tighter = levels) (op : BinaryOp) :
    op ∈ level ↔ op.rank = looser.length := by
  have hplace : levels[looser.length]? = some level := by
    rw [← h, getElem?_append_right (Nat.le_refl _), Nat.sub_self]
    rfl
  have htable : ∀ (place : Fin 9), op ∈ levels[place] ↔ op.rank = place := by
    cases op <;> decide
  obtain ⟨hlt, hget⟩ := List.getElem?_eq_some_iff.1 hplace
  rw [← hget]
  exact htable ⟨looser.length, hlt⟩

theorem join_joins (op : BinaryOp) (left right : Node) (line : Nat) :
    (Node.mk (op.join left right) line).Joins op left right := by
  by_cases hor : op = .or
  · subst hor
    exact .or left right line
  · by_cases hand : op = .and
    · subst hand
      exact .and left right line
    · rw [join_eq_binary ⟨hor, hand⟩]
      exact .binary hor hand left right line

end BinaryOp

/-! ### Only one tree -/

namespace Node

variable {node node' left right left' right' : Node} {op op' : BinaryOp}
  {tokens before behind before' behind' : List Token}

theorem Joins.unique (h : node.Joins op left right) (h' : node.Joins op' left' right') :
    op' = op ∧ left' = left ∧ right' = right := by
  cases h <;> cases h' <;> exact ⟨rfl, rfl, rfl⟩

theorem not_joins_number (value : Int) (line : Nat) : ¬ (Node.mk (.int value) line).Joins op left
    right := nofun

theorem bindsFrom_number (rank : Nat) (value : Int) (line : Nat) :
    (Node.mk (.int value) line).BindsFrom rank :=
  fun _ _ _ hjoins => absurd hjoins (not_joins_number value line)

theorem BindsFrom.of_joins {rank : Nat} (hjoins : node.Joins op left right) (h : rank ≤ op.rank) :
    node.BindsFrom rank := by
  intro op' left' right' hjoins'
  rw [(hjoins.unique hjoins').1]
  exact h

theorem BindsFrom.mono {rank rank' : Nat} (h : node.BindsFrom rank) (hle : rank' ≤ rank) :
    node.BindsFrom rank' :=
  fun op left right hjoins => hle.trans (h op left right hjoins)

theorem InOrder.eq_of_number {value : Int} {line : Nat}
    (h : (Node.mk (.int value) line).InOrder tokens) : tokens = [.int value] := by
  generalize hnode : Node.mk (.int value) line = node at h
  cases h with
  | number value' line' =>
    cases hnode
    rfl
  | joined hjoins => exact absurd (hnode ▸ hjoins) (not_joins_number value line)

/-- The tokens of a node are those of its operands around its operator. -/
theorem InOrder.of_joins (h : node.InOrder tokens) (hjoins : node.Joins op left right) :
    ∃ before behind, tokens = before ++ .op (.binary op) :: behind ∧ left.InOrder before ∧
      right.InOrder behind := by
  cases h with
  | number value line => exact absurd hjoins (not_joins_number value line)
  | joined hjoins' hleft hright =>
    obtain ⟨rfl, rfl, rfl⟩ := hjoins.unique hjoins'
    exact ⟨_, _, rfl, hleft, hright⟩

/-- The tokens of a tree start with a number. -/
theorem InOrder.exists_cons (h : node.InOrder tokens) :
    ∃ value others, tokens = .int value :: others := by
  induction h with
  | number value line => exact ⟨value, [], rfl⟩
  | joined _ _ _ ih =>
    obtain ⟨value, others, rfl⟩ := ih
    exact ⟨value, _, rfl⟩

theorem bare_eq_of_joins (hjoins : node.Joins op left right) (hjoins' : node'.Joins op left' right')
    (hleft : left'.bare = left.bare) (hright : right'.bare = right.bare) :
    node'.bare = node.bare := by
  unfold Node.bare at *
  cases hjoins <;> cases hjoins' <;>
    first
      | exact absurd rfl ‹_ ≠ _›
      | simp only [Node.mapLines, Form.mapLines, hleft, hright]

/-- No operator of a tree is looser than its root. -/
theorem Grouped.rank_le (h : node.Grouped) {rank : Nat} (hbinds : node.BindsFrom rank)
    (horder : node.InOrder tokens) : ∀ op, .op (.binary op) ∈ tokens → rank ≤ op.rank := by
  intro op hmem
  induction h generalizing rank tokens with
  | number value line =>
    rw [horder.eq_of_number] at hmem
    cases mem_singleton.1 hmem
  | level hjoins hop _ _ hleft hright ihleft ihright =>
    obtain ⟨before, behind, rfl, hbefore, hbehind⟩ := horder.of_joins hjoins
    have hroot := hbinds _ _ _ hjoins
    -- it is the root, or it is found in an operand, which is bound at least as tight
    rcases mem_append.1 hmem with hmem | hmem
    · exact hroot.trans (ihleft hleft hbefore hmem)
    · rcases mem_cons.1 hmem with heq | hmem
      · cases heq
        exact hroot
      · exact hroot.trans ((Nat.le_succ _).trans (ihright hright hbehind hmem))
  | power hjoins _ hright ihright =>
    obtain ⟨before, behind, rfl, hbefore, hbehind⟩ := horder.of_joins hjoins
    have hroot := hbinds _ _ _ hjoins
    rw [hbefore.eq_of_number] at hmem
    rcases mem_cons.1 hmem with heq | hmem
    · cases heq
    · rcases mem_cons.1 hmem with heq | hmem
      · cases heq
        exact hroot
      · exact hroot.trans (ihright hright hbehind hmem)

/-- What the root of a grouped tree says of the operators around it: where there is one on the left
the root is no power, and none of those is looser; on the right none is looser either, and only a
power has its own rank there. -/
theorem Grouped.around_root (h : node.Grouped) (hjoins : node.Joins op left right)
    (hleft : left.InOrder before) (hright : right.InOrder behind) :
    (∀ other, .op (.binary other) ∈ before → op ≠ .pow ∧ op.rank ≤ other.rank) ∧
      ∀ other, .op (.binary other) ∈ behind →
        op.rank ≤ other.rank ∧ (op ≠ .pow → op.rank < other.rank) := by
  cases h with
  | number value line => exact absurd hjoins (not_joins_number value line)
  | level hjoins' hop hgrouped hgrouped' hbinds hbinds' =>
    obtain ⟨rfl, rfl, rfl⟩ := hjoins.unique hjoins'
    constructor
    · intro other hmem
      exact ⟨hop, hgrouped.rank_le hbinds hleft other hmem⟩
    · intro other hmem
      have hlt := hgrouped'.rank_le hbinds' hright other hmem
      exact ⟨Nat.le_of_lt hlt, fun _ => hlt⟩
  | power hjoins' hgrouped' hbinds =>
    obtain ⟨rfl, rfl, rfl⟩ := hjoins.unique hjoins'
    constructor
    · intro other hmem
      rw [hleft.eq_of_number] at hmem
      cases mem_singleton.1 hmem
    · intro other hmem
      exact ⟨hgrouped'.rank_le hbinds hright other hmem, fun hne => absurd rfl hne⟩

/-- Of two roots of the same tokens the first does not stand left of the second. -/
theorem Grouped.root_not_left (h : node.Grouped) (hjoins : node.Joins op left right)
    (hleft : left.InOrder before) (hright : right.InOrder behind) (h' : node'.Grouped)
    (hjoins' : node'.Joins op' left' right') (hleft' : left'.InOrder before')
    (hright' : right'.InOrder behind') {between : List Token}
    (hbefore : before' = before ++ .op (.binary op) :: between) :
    behind ≠ between ++ .op (.binary op') :: behind' := by
  rintro rfl
  subst hbefore
  obtain ⟨hne, hle⟩ := (h'.around_root hjoins' hleft' hright').1 op
    (mem_append_right _ mem_cons_self)
  obtain ⟨hle', hlt⟩ := (h.around_root hjoins hleft hright).2 op'
    (mem_append_right _ mem_cons_self)
  -- each root would be looser than the other, or both are powers
  by_cases hpow : op = .pow
  · subst hpow
    exact hne (BinaryOp.eq_pow_of_rank_le hle')
  · exact absurd (hlt hpow) (Nat.not_lt.2 hle)

/-- Two grouped trees of the same tokens have the same root. -/
theorem Grouped.same_root (h : node.Grouped) (hjoins : node.Joins op left right)
    (hleft : left.InOrder before) (hright : right.InOrder behind) (h' : node'.Grouped)
    (hjoins' : node'.Joins op' left' right') (hleft' : left'.InOrder before')
    (hright' : right'.InOrder behind')
    (heq : before ++ .op (.binary op) :: behind = before' ++ .op (.binary op') :: behind') :
    before' = before ∧ op' = op ∧ behind' = behind := by
  -- if the roots differ, one of them stands among the tokens to the left of the other
  rcases append_eq_append_iff.1 heq with
    ⟨between, hbefore, hbehind⟩ | ⟨between, hbefore, hbehind⟩
  · cases between with
    | nil =>
      cases hbehind
      exact ⟨hbefore.trans (append_nil _), rfl, rfl⟩
    | cons first between =>
      rw [cons_append] at hbehind
      obtain ⟨rfl, hrest⟩ := List.cons.inj hbehind
      exact absurd hrest
        (h.root_not_left hjoins hleft hright h' hjoins' hleft' hright' hbefore)
  · cases between with
    | nil =>
      cases hbehind
      exact ⟨(hbefore.trans (append_nil _)).symm, rfl, rfl⟩
    | cons first between =>
      rw [cons_append] at hbehind
      obtain ⟨rfl, hrest⟩ := List.cons.inj hbehind
      exact absurd hrest
        (h'.root_not_left hjoins' hleft' hright' h hjoins hleft hright hbefore)

/-- A tree with an operator has more than one token. -/
theorem InOrder.ne_singleton (hleft : left.InOrder before) (token : Token) :
    before ++ .op (.binary op) :: behind ≠ [token] := by
  obtain ⟨value, others, rfl⟩ := hleft.exists_cons
  intro heq
  cases others <;> cases heq

/-- Every grouped tree with the same tokens is this one, but for the lines. -/
def IsOnlyTree (node : Node) : Prop :=
  ∀ (tokens : List Token) (node' : Node), node.InOrder tokens →
    node'.Grouped → node'.InOrder tokens → node'.bare = node.bare

theorem isOnlyTree_number (value : Int) (line : Nat) : (Node.mk (.int value) line).IsOnlyTree := by
  intro tokens node' horder _ horder'
  rw [horder.eq_of_number] at horder'
  generalize htokens : [Token.int value] = tokens at horder'
  cases horder' with
  | number =>
    cases htokens
    rfl
  | joined _ hleft => exact absurd htokens.symm (hleft.ne_singleton _)

/-- The root is where the root of the other tree is, so the operands have the same tokens too. -/
theorem Grouped.isOnlyTree_of_joins (h : node.Grouped) (hjoins : node.Joins op left right)
    (hleft : left.IsOnlyTree) (hright : right.IsOnlyTree) : node.IsOnlyTree := by
  intro tokens node' horder h' horder'
  obtain ⟨before, behind, rfl, hbefore, hbehind⟩ := horder.of_joins hjoins
  -- the roots are the same, and the operands are the only trees of their tokens
  have hsame : ∀ {op' left' right'}, node'.Joins op' left' right' → left'.Grouped →
      right'.Grouped → node'.bare = node.bare := by
    intro op' left' right' hjoins' hgrouped hgrouped'
    obtain ⟨before', behind', heq, hbefore', hbehind'⟩ := horder'.of_joins hjoins'
    obtain ⟨rfl, rfl, rfl⟩ :=
      h.same_root hjoins hbefore hbehind h' hjoins' hbefore' hbehind' heq
    exact bare_eq_of_joins hjoins hjoins' (hleft _ _ hbefore hgrouped hbefore')
      (hright _ _ hbehind hgrouped' hbehind')
  cases h' with
  | number value line => exact absurd horder'.eq_of_number (hbefore.ne_singleton _)
  | level hjoins' _ hgrouped hgrouped' => exact hsame hjoins' hgrouped hgrouped'
  | power hjoins' hgrouped' => exact hsame hjoins' (.number _ _) hgrouped'

/-- There is at most one grouped tree of given tokens. -/
theorem Grouped.isOnlyTree (h : node.Grouped) : node.IsOnlyTree := by
  induction h with
  | number value line => exact isOnlyTree_number value line
  | level hjoins hop hleft hright hbinds hbinds' ihleft ihright =>
    exact (Grouped.level hjoins hop hleft hright hbinds hbinds').isOnlyTree_of_joins hjoins ihleft
      ihright
  | power hjoins hright hbinds ihright =>
    exact (Grouped.power hjoins hright hbinds).isOnlyTree_of_joins hjoins (isOnlyTree_number _ _)
      ihright

end Node

/-! ### The tokens -/

/-- Operators with a number behind each of them. -/
def pairTokens (pairs : List (BinaryOp × Int)) : List Token :=
  pairs.flatMap fun pair => [.op (.binary pair.1), .int pair.2]

/-- A number, and operators with a number behind each of them. -/
def operationTokens (first : Int) (pairs : List (BinaryOp × Int)) : List Token :=
  .int first :: pairTokens pairs

/-- No operation of the rank or of a tighter one goes on at the token: the input ends, or an
operator stands there that is looser. -/
def Token.EndsOperation (rank : Nat) (token : Token) : Prop :=
  token = .done ∨ ∃ op : BinaryOp, token = .op (.binary op) ∧ op.rank < rank

/-- The tree of the tokens, with a root of the rank or of a tighter one. -/
structure Node.IsOperation (rank : Nat) (tokens : List Token) (node : Node) : Prop where
  inOrder : node.InOrder tokens
  grouped : node.Grouped
  binds : node.BindsFrom rank

/-- The operation of a level joins a tree of this level and one of tighter operators. -/
theorem isOperation_join {op : BinaryOp} {before behind : List Token} {left right : Node}
    (hop : op ≠ .pow) (hleft : left.IsOperation op.rank before)
    (hright : right.IsOperation (op.rank + 1) behind) (line : Nat) :
    (Node.mk (op.join left right) line).IsOperation op.rank
      (before ++ .op (.binary op) :: behind) where
  inOrder := .joined (op.join_joins left right line) hleft.inOrder hright.inOrder
  grouped := .level (op.join_joins left right line) hop hleft.grouped hright.grouped hleft.binds
    hright.binds
  binds := .of_joins (op.join_joins left right line) (Nat.le_refl _)

/-! ### Numbers and powers -/

section Powers

variable {s : State} {here number sign : Located} {ahead tokens : List Located} {bound : Nat}

/-- Nothing is chained to a number before an operator or the end of the input. -/
theorem run_chain_of_operator (read : Reader) (node : Node)
    (h : here.token = .done ∨ ∃ op, here.token = .op (.binary op)) :
    (Rule.chain read node).run (s.at (here :: ahead)) = .ok (node, s.at (here :: ahead)) := by
  have hnewline : (here.token == .newline) = false := by
    rcases h with h | ⟨op, h⟩ <;> rw [h] <;> rfl
  rw [Rule.chain, run_get_bind, State.cursor_at, Cursor.ofTokens_cons,
    Cursor.skip_of_false hnewline]
  obtain ⟨token, line, spaced⟩ := here
  rcases h with h | ⟨op, h⟩ <;> cases h <;> rfl

/-- Blank space does not matter behind a number: it takes no arguments. -/
theorem yields_number {value : Int} (hnumber : number.token = .int value)
    (hhere : here.token = .done ∨ ∃ op, here.token = .op (.binary op))
    (hbound : (number :: here :: ahead).length ≤ bound) :
    Yields (Rule.unary (readAt bound)) s [number] (here :: ahead)
      (· = ⟨.int value, number.line⟩) := by
  have hprimary : Yields (Rule.primary (readAt bound)) s [number] (here :: ahead)
      (· = ⟨.int value, number.line⟩) := by
    have hform : Rule.formBehind? (readAt bound) number.line number.token =
        some (pure ⟨.int value, number.line⟩) := by
      rw [hnumber]
      rfl
    exact yields_primary hform (cons_ne_nil _ _) (yields_pure rfl)
  -- nothing is chained to it, as an operator or the end follows
  have hoperand : Yields (Rule.operand (readAt bound)) s [number] (here :: ahead)
      (· = ⟨.int value, number.line⟩) :=
    hprimary.bind_left fun node hnode =>
      yields_readAt (fun _ _ => ⟨node, run_chain_of_operator _ node hhere, hnode⟩) hbound
  refine yields_unary hoperand ?_
  rw [hnumber]
  rfl

/-- A number and the power it is raised to, which is read one level deeper. -/
theorem yields_signed_power {value : Int} {second : Located} {Q : Node → Prop}
    (hnumber : number.token = .int value) (hsign : sign.token = .op (.binary .pow))
    (hsecond : second.token ≠ .newline) (hdepth : s.depth < maxNesting)
    (hexponent : Yields (readAt bound .signed) { s with depth := s.depth + 1 } (second :: tokens)
      (here :: ahead) Q)
    (hbound : (number :: sign :: second :: tokens ++ here :: ahead).length ≤ bound) :
    Yields (Rule.signed (readAt bound)) s (number :: sign :: second :: tokens) (here :: ahead)
      fun node => ∃ exponent, Q exponent ∧
        node = ⟨.binary .pow ⟨.int value, number.line⟩ exponent, sign.line⟩ := by
  have hminus : (number.token != .op (.binary .sub)) = true := by
    rw [hnumber]
    rfl
  rw [cons_append, cons_append, cons_append] at hbound
  obtain ⟨base, hrunBase, rfl⟩ := yields_number (s := s) hnumber (.inr ⟨.pow, hsign⟩) hbound
  obtain ⟨exponent, hrun, hQ⟩ := hexponent.nested hdepth
  refine ⟨_, ?_, exponent, hQ, rfl⟩
  -- the base, the sign, perhaps the end of a line, and the exponent
  rw [Rule.signed, cons_append, cons_append, cons_append, run_current_bind, hminus]
  refine (run_bind_ok hrunBase _).trans ?_
  rw [Rule.power, run_line_bind, eatOp, run_eat_bind_of_eq hsign (cons_ne_nil _ _)]
  show Parser.run (skipNewlines >>= _) _ = _
  rw [run_skipNewlines_bind hsecond]
  exact run_bind_ok hrun _

/-- A number raised to a number, and so on, groups to the right. -/
theorem yields_powers (hhere : here.token.EndsOperation BinaryOp.pow.rank)
    {pairs : List (BinaryOp × Int)} (hpairs : ∀ pair ∈ pairs, pair.1 = .pow) {first : Int}
    (htokens : tokens.map (·.token) = operationTokens first pairs)
    (hdepth : s.depth + pairs.length ≤ maxNesting)
    (hbound : (tokens ++ here :: ahead).length ≤ bound) :
    Yields (Rule.signed (readAt bound)) s tokens (here :: ahead)
      (Node.IsOperation BinaryOp.pow.rank (operationTokens first pairs)) := by
  -- the exponent is a shorter sequence of the same kind, one level deeper
  induction pairs generalizing first tokens s bound with
  | nil =>
    obtain ⟨number, others, rfl, hnumber, hothers⟩ := map_eq_cons_iff.1 htokens
    obtain rfl : others = [] := map_eq_nil_iff.1 hothers
    have hbehind : here.token = .done ∨ ∃ op, here.token = .op (.binary op) :=
      hhere.imp_right fun ⟨op, hop, _⟩ => ⟨op, hop⟩
    have hpow : here.token ≠ .op (.binary .pow) := by
      rcases hhere with h | ⟨op, h, hlt⟩
      · rw [h]
        exact Token.noConfusion
      · rw [h]
        rintro ⟨⟩
        exact Nat.lt_irrefl _ hlt
    have hminus : number.token ≠ .op (.binary .sub) := by
      rw [hnumber]
      exact Token.noConfusion
    refine (yields_signed (yields_number hnumber hbehind hbound) hminus hpow).mono ?_
    rintro _ rfl
    exact ⟨.number first number.line, .number first number.line, Node.bindsFrom_number _ _ _⟩
  | cons pair pairs ih =>
    obtain ⟨op, value⟩ := pair
    rw [forall_mem_cons] at hpairs
    obtain ⟨rfl : op = .pow, hpairs⟩ := hpairs
    obtain ⟨number, others, rfl, hnumber, hothers⟩ := map_eq_cons_iff.1 htokens
    obtain ⟨sign, others, rfl, hsign, hothers⟩ := map_eq_cons_iff.1 hothers
    obtain ⟨second, others, rfl, hsecond, hrest⟩ := map_eq_cons_iff.1 hothers
    have hnewline : second.token ≠ .newline := by
      rw [hsecond]
      exact Token.noConfusion
    rw [length_cons] at hdepth
    have hexponent : Yields (readAt bound .signed) { s with depth := s.depth + 1 }
        (second :: others) (here :: ahead)
        (Node.IsOperation BinaryOp.pow.rank (operationTokens value pairs)) := by
      refine yields_readAt (fun bound hbound => ?_)
        (by simp only [cons_append, length_cons] at hbound ⊢; omega)
      exact ih hpairs hothers (show s.depth + 1 + pairs.length ≤ _ by omega) hbound
    refine (yields_signed_power hnumber hsign hnewline (by omega) hexponent hbound).mono ?_
    rintro _ ⟨exponent, hexponent, rfl⟩
    have hjoins := @Node.Joins.binary .pow BinaryOp.noConfusion BinaryOp.noConfusion
      ⟨.int first, number.line⟩ exponent sign.line
    exact ⟨.joined hjoins (.number first number.line) hexponent.inOrder,
      .power hjoins hexponent.grouped hexponent.binds, .of_joins hjoins (Nat.le_refl _)⟩

end Powers

/-! ### The levels -/

/-- The first operator of the pairs, if there is one, has the rank. -/
def StartsAtRank (rank : Nat) (pairs : List (BinaryOp × Int)) : Prop :=
  ∀ op value others, pairs = (op, value) :: others → op.rank = rank

/-- Of operators that are not looser than a rank, those up to the first of this rank are tighter. -/
theorem exists_tighter_append {rank : Nat} {pairs : List (BinaryOp × Int)}
    (h : ∀ pair ∈ pairs, rank ≤ pair.1.rank) :
    ∃ tight others, pairs = tight ++ others ∧ (∀ pair ∈ tight, rank + 1 ≤ pair.1.rank) ∧
      StartsAtRank rank others := by
  induction pairs with
  | nil => exact ⟨[], [], rfl, nofun, nofun⟩
  | cons pair pairs ih =>
    rw [forall_mem_cons] at h
    obtain ⟨hpair, hpairs⟩ := h
    -- the first operator is of this rank, or belongs to the tighter ones
    rcases Nat.eq_or_lt_of_le hpair with heq | hlt
    · refine ⟨[], pair :: pairs, rfl, nofun, ?_⟩
      rintro op value others ⟨⟩
      exact heq.symm
    · obtain ⟨tight, others, rfl, htight, hothers⟩ := ih hpairs
      exact ⟨pair :: tight, others, rfl, forall_mem_cons.2 ⟨hlt, htight⟩, hothers⟩

theorem pairTokens_append (pairs others : List (BinaryOp × Int)) :
    pairTokens (pairs ++ others) = pairTokens pairs ++ pairTokens others :=
  flatMap_append

/-- No 61 powers stand in a row. -/
def HasShortPowers (pairs : List (BinaryOp × Int)) : Prop :=
  ¬ replicate 61 BinaryOp.pow <:+: pairs.map Prod.fst

theorem HasShortPowers.of_infix {pairs others : List (BinaryOp × Int)} (h : HasShortPowers pairs)
    (hwithin : others <:+: pairs) : HasShortPowers others :=
  fun hlong => h (hlong.trans (hwithin.map Prod.fst))

theorem HasShortPowers.length_le {pairs : List (BinaryOp × Int)} (h : HasShortPowers pairs)
    (hpairs : ∀ pair ∈ pairs, pair.1 = .pow) : pairs.length ≤ 60 := by
  have hpowers : pairs.map Prod.fst = replicate pairs.length .pow := by
    refine eq_replicate_iff.2 ⟨length_map _, fun op hop => ?_⟩
    obtain ⟨pair, hpair, rfl⟩ := mem_map.1 hop
    exact hpairs pair hpair
  by_contra hlong
  apply h
  rw [hpowers, ← Nat.add_sub_of_le (Nat.lt_of_not_le hlong), replicate_add]
  exact (List.prefix_append _ _).isInfix

section Levels

variable {s : State} {here : Located} {ahead tokens : List Located} {bound : Nat}

/-- Behind the tighter operators stands one of the level, or what stands behind them all. -/
theorem exists_cons_endsOperation {rank : Nat} {pairs : List (BinaryOp × Int)}
    (hstarts : StartsAtRank rank pairs) (htokens : tokens.map (·.token) = pairTokens pairs)
    (hhere : here.token.EndsOperation rank) (ahead : List Located) :
    ∃ next behind, tokens ++ here :: ahead = next :: behind ∧
      next.token.EndsOperation (rank + 1) := by
  cases pairs with
  | nil =>
    obtain rfl : tokens = [] := map_eq_nil_iff.1 htokens
    refine ⟨here, ahead, rfl, hhere.imp_right ?_⟩
    rintro ⟨op, hop, hlt⟩
    exact ⟨op, hop, Nat.lt_succ_of_lt hlt⟩
  | cons pair others =>
    obtain ⟨op, value⟩ := pair
    obtain ⟨sign, behind, rfl, hsign, -⟩ := map_eq_cons_iff.1 htokens
    exact ⟨sign, behind ++ here :: ahead, rfl, .inr ⟨op, hsign,
      Nat.lt_succ_of_le (Nat.le_of_eq (hstarts op value others rfl))⟩⟩

/-- The rule reads every operation whose operators are not looser than the rank. -/
def ReadsFromRank (rank : Nat) (levels : List (List BinaryOp)) : Prop :=
  ∀ ⦃s : State⦄ ⦃here : Located⦄ ⦃ahead tokens : List Located⦄ ⦃bound : Nat⦄ ⦃first : Int⦄
    ⦃pairs : List (BinaryOp × Int)⦄, s.pipeCloses = false → s.depth + 60 ≤ maxNesting →
    HasShortPowers pairs → (∀ pair ∈ pairs, rank ≤ pair.1.rank) →
    tokens.map (·.token) = operationTokens first pairs → here.token.EndsOperation rank →
    (tokens ++ here :: ahead).length ≤ bound →
    Yields (Rule.operation (readAt bound) levels) s tokens (here :: ahead)
      (Node.IsOperation rank (operationTokens first pairs))

theorem readsFromRank_nil : ReadsFromRank BinaryOp.pow.rank [] := by
  intro s here ahead tokens bound first pairs _ hdepth hshort hpairs htokens hhere hbound
  have hpow : ∀ pair ∈ pairs, pair.1 = .pow :=
    fun pair hpair => BinaryOp.eq_pow_of_rank_le (hpairs pair hpair)
  have hlength := hshort.length_le hpow
  exact yields_powers hhere hpow htokens (by omega) hbound

section Level

variable {looser tighter : List (List BinaryOp)} {level : List BinaryOp}
  (hlevels : looser ++ level :: tighter = BinaryOp.levels)
  (htighter : ReadsFromRank (looser.length + 1) tighter)
include hlevels htighter

/-- The operators of a level and the tighter ones between them are read one by one; what has been
read is the first operand of the next. -/
theorem yields_operationTail_pairs {before : List Token} {left : Node}
    {pairs : List (BinaryOp × Int)} (hpipe : s.pipeCloses = false)
    (hdepth : s.depth + 60 ≤ maxNesting) (hshort : HasShortPowers pairs)
    (hpairs : ∀ pair ∈ pairs, looser.length ≤ pair.1.rank)
    (hstarts : StartsAtRank looser.length pairs)
    (htokens : tokens.map (·.token) = pairTokens pairs)
    (hhere : here.token.EndsOperation looser.length)
    (hleft : left.IsOperation looser.length before)
    (hbound : (tokens ++ here :: ahead).length < bound) :
    Yields (readAt bound (.operationTail level tighter left)) s tokens (here :: ahead)
      (Node.IsOperation looser.length (before ++ pairTokens pairs)) := by
  -- one operator of the level and the tighter ones behind it are taken at a time
  induction hlength : pairs.length using Nat.strong_induction_on
    generalizing pairs tokens before left bound with
  | h length ih =>
  cases pairs with
  | nil =>
    obtain rfl : tokens = [] := map_eq_nil_iff.1 htokens
    have hnone : here.joinsNone level := by
      intro op hop htoken
      have hrank := (BinaryOp.mem_level_iff hlevels op).1 hop
      rcases hhere with h | ⟨op', h, hlt⟩
      · rw [h] at htoken
        cases htoken
      · rw [h] at htoken
        cases htoken
        omega
    rw [show before ++ pairTokens [] = before from append_nil before]
    exact yields_operationTail hleft hnone hbound
  | cons pair pairs =>
    obtain ⟨op, value⟩ := pair
    have hrank : op.rank = looser.length := hstarts op value pairs rfl
    have hop : op ∈ level := (BinaryOp.mem_level_iff hlevels op).2 hrank
    have hne : op ≠ .pow := by
      rintro rfl
      have hlt := congrArg List.length hlevels
      rw [length_append, length_cons] at hlt
      have hpow : BinaryOp.pow.rank = BinaryOp.levels.length := by decide
      omega
    obtain ⟨tight, others, rfl, htight, hothers⟩ :=
      exists_tighter_append (forall_mem_cons.1 hpairs).2
    -- the sign, the second operand with its tighter operators, and the rest
    have hsplit : pairTokens ((op, value) :: (tight ++ others)) =
        .op (.binary op) :: (operationTokens value tight ++ pairTokens others) := by
      rw [operationTokens, cons_append, ← pairTokens_append]
      rfl
    rw [hsplit] at htokens
    obtain ⟨sign, behind, rfl, hsign, hbehind⟩ := map_eq_cons_iff.1 htokens
    obtain ⟨operand, more, rfl, hoperand, hmore⟩ := map_eq_append_iff.1 hbehind
    obtain ⟨second, rest, rfl, hsecond, -⟩ := map_eq_cons_iff.1 hoperand
    have hnewline : second.token ≠ .newline := by
      rw [hsecond]
      exact Token.noConfusion
    obtain ⟨next, behind, hnext, hends⟩ :=
      exists_cons_endsOperation hothers hmore hhere ahead
    have hwithin : ∀ part, part <:+: tight ++ others → HasShortPowers part :=
      fun part hpart => hshort.of_infix (hpart.trans (suffix_cons _ _).isInfix)
    rw [hsplit]
    rw [show second :: rest ++ more = second :: (rest ++ more) from rfl] at hbound ⊢
    refine yields_operationTail_sign hpipe hsign hop hnewline (fun bound hbound => ?_) hbound
    -- the second operand ends at the next operator of the level, and with it the induction goes on
    have hright : Yields (readAt bound (.operation tighter)) s (second :: rest)
        (more ++ here :: ahead)
        (Node.IsOperation (looser.length + 1) (operationTokens value tight)) := by
      rw [← cons_append, List.append_assoc] at hbound
      rw [hnext] at hbound ⊢
      refine yields_readAt (fun bound hbound => ?_) hbound
      exact htighter hpipe hdepth (hwithin tight (List.prefix_append _ _).isInfix) htight hoperand
        hends hbound
    refine hright.bind fun right hright => ?_
    have hjoin := isOperation_join hne (hrank ▸ hleft) (hrank ▸ hright) sign.line
    rw [hrank] at hjoin
    rw [← cons_append, ← List.append_assoc]
    refine ih others.length ?_ (hwithin others (suffix_append _ _).isInfix) ?_ hothers hmore
      hjoin ?_ rfl
    · rw [← hlength, length_cons, length_append]
      omega
    · intro pair hpair
      exact hpairs pair (mem_cons_of_mem _ (mem_append_right _ hpair))
    · simp only [length_append, length_cons] at hbound ⊢
      omega

theorem readsFromRank_cons : ReadsFromRank looser.length (level :: tighter) := by
  intro s here ahead tokens bound first pairs hpipe hdepth hshort hpairs htokens hhere hbound
  obtain ⟨tight, others, rfl, htight, hothers⟩ := exists_tighter_append hpairs
  rw [operationTokens, pairTokens_append, ← cons_append] at htokens ⊢
  obtain ⟨operand, more, rfl, hoperand, hmore⟩ := map_eq_append_iff.1 htokens
  obtain ⟨next, behind, hnext, hends⟩ :=
    exists_cons_endsOperation hothers hmore hhere ahead
  -- the operand is read by the tighter levels, up to the first operator of this one
  have hfirst : Yields (Rule.operation (readAt bound) tighter) s operand (more ++ here :: ahead)
      (Node.IsOperation (looser.length + 1) (operationTokens first tight)) := by
    rw [hnext]
    refine htighter hpipe hdepth (hshort.of_infix (List.prefix_append _ _).isInfix) htight hoperand
      hends ?_
    rwa [List.append_assoc, hnext] at hbound
  refine hfirst.bind fun left hleft => ?_
  refine yields_operationTail_pairs hlevels htighter hpipe hdepth
    (hshort.of_infix (suffix_append _ _).isInfix)
    (fun pair hpair => hpairs pair (mem_append_right _ hpair)) hothers hmore hhere
    ⟨hleft.inOrder, hleft.grouped, hleft.binds.mono (Nat.le_succ _)⟩ ?_
  obtain ⟨_, _, rfl, _⟩ := map_eq_cons_iff.1 hoperand
  simp only [length_append, length_cons] at hbound ⊢
  omega

end Level

/-- Every level reads the operations of its own operators and of the tighter ones. -/
theorem readsFromRank {looser levels : List (List BinaryOp)}
    (h : looser ++ levels = BinaryOp.levels) : ReadsFromRank looser.length levels := by
  induction levels generalizing looser with
  | nil =>
    rw [append_nil] at h
    rw [h]
    exact readsFromRank_nil
  | cons level tighter ih =>
    have htighter := @ih (looser ++ [level]) (by rwa [List.append_assoc])
    rw [length_append] at htighter
    exact readsFromRank_cons h htighter

end Levels

/-! ### The whole input -/

section Program

variable {s : State} {last : Located} {tokens : List Located} {bound : Nat} {first : Int}
  {pairs : List (BinaryOp × Int)}

/-- A statement of operators and numbers. -/
theorem yields_statement_operators (hpipe : s.pipeCloses = false)
    (hdepth : s.depth + 61 ≤ maxNesting) (hshort : HasShortPowers pairs)
    (htokens : tokens.map (·.token) = operationTokens first pairs) (hlast : last.token = .done)
    (hbound : (tokens ++ [last]).length ≤ bound) :
    Yields (Rule.statement (readAt bound)) s tokens [last]
      (Node.IsOperation 0 (operationTokens first pairs)) := by
  have hexpression : last.token.closesExpression = true := by rw [hlast]; rfl
  have hstatement : last.token.closesStatement = true := by rw [hlast]; rfl
  have hlevels : ReadsFromRank 0 BinaryOp.levels := @readsFromRank [] BinaryOp.levels rfl
  have hoperation : Yields (Rule.operation (readAt bound) BinaryOp.levels)
      { s with depth := s.depth + 1 } tokens [last]
      (Node.IsOperation 0 (operationTokens first pairs)) :=
    hlevels hpipe (show s.depth + 1 + 60 ≤ _ by omega) hshort (fun _ _ => Nat.zero_le _) htokens
      (.inl hlast) hbound
  have hread := yields_expression (by omega) (yields_ternary_of_operation hoperation hexpression)
    hexpression
  obtain ⟨number, others, rfl, hnumber, hothers⟩ := map_eq_cons_iff.1 htokens
  have hlength : [last].length < bound := by
    rw [cons_append, length_cons, length_append] at hbound
    omega
  -- none of the rules between an expression and a statement finds anything of its own
  have hnegation : Yields (Rule.negation (readAt bound)) s (number :: others) [last]
      (Node.IsOperation 0 (operationTokens first pairs)) := by
    refine hread.of_run_eq ?_
    rw [cons_append, Rule.negation, run_line_bind, eatWord,
      run_eat_bind_of_ne (by rw [hnumber]; exact Token.noConfusion)]
    rfl
  have hcondition : Yields (Rule.condition (readAt bound)) s (number :: others) [last]
      (Node.IsOperation 0 (operationTokens first pairs)) :=
    hnegation.bind_left fun node hnode => yields_conditionTail hnode hstatement hlength
  have hmodified : Yields (do readAt bound (.modifiers (← Rule.condition (readAt bound)))) s
      (number :: others) [last] (Node.IsOperation 0 (operationTokens first pairs)) :=
    hcondition.bind_left fun node hnode => yields_modifiers hnode hstatement hlength
  refine hmodified.of_run_eq ?_
  have hmul : number.token ≠ .op (.binary .mul) := by
    rw [hnumber]
    exact Token.noConfusion
  have hannounces : announcesTargets false (number :: (others ++ [last])) = false := by
    cases pairs with
    | nil =>
      obtain rfl : others = [] := map_eq_nil_iff.1 hothers
      refine announcesTargets_eq_false hmul ?_
      rw [hlast]
      exact ⟨Token.noConfusion, Token.noConfusion⟩
    | cons pair pairs =>
      obtain ⟨sign, others, rfl, hsign, -⟩ := map_eq_cons_iff.1 hothers
      refine announcesTargets_eq_false hmul ?_
      rw [hsign]
      exact ⟨Token.noConfusion, fun h => Operator.noConfusion (Token.op.inj h)⟩
  rw [Rule.statement, run_get_bind, cons_append]
  simp only [State.cursor_at, Cursor.ofTokens_cons, hannounces]
  rfl

/-- The statement is all there is to read. -/
theorem parse_of_yields_statement (file : String) {Q : Node → Prop} {opening : Located}
    (hopening : isTerminator opening.token = false)
    (hends : Rule.endsStatements [] opening.token = false) (hlast : last.token = .done)
    (h : ∀ bound, (opening :: tokens ++ [last]).length ≤ bound →
      Yields (Rule.statement (readAt bound)) (.start file [] [.empty true] 0) (opening :: tokens)
        [last] Q) :
    ∃ node, parse file (opening :: tokens ++ [last]) = .ok [node] ∧ Q node := by
  have hbound := length_le_tokensWeight (opening :: tokens ++ [last])
  generalize hweight : tokensWeight (opening :: tokens ++ [last]) = weight at hbound
  obtain ⟨node, hrun, hnode⟩ := h weight hbound
  refine ⟨node, ?_, hnode⟩
  have hterminator : isTerminator last.token = false := by rw [hlast]; rfl
  have hstops : Rule.endsStatements [] last.token = true := by rw [hlast]; rfl
  obtain ⟨weight, rfl⟩ : ∃ n, weight = n + 1 :=
    Nat.exists_eq_add_one.2 (Nat.lt_of_lt_of_le (Nat.succ_pos _) hbound)
  -- behind the statement the rule asks for further ones, and finds the end of the input
  have hstatements : (Rule.statements (readAt (weight + 1)) []).run
      ((State.start file [] [.empty true] 0).at (opening :: tokens ++ [last])) =
        .ok ([node], (State.start file [] [.empty true] 0).at [last]) := by
    rw [cons_append] at hrun ⊢
    rw [Rule.statements, run_skipTerminators_bind hopening, run_current_bind, hends]
    refine (run_bind_ok hrun _).trans ?_
    rw [run_current_bind]
    simp only [hterminator, hstops, Bool.not_true, Bool.and_false, Bool.false_eq_true, if_false]
    exact run_bind_ok (run_statements_of_ends (readAt weight) hterminator hstops) _
  have hprogram : (Rule.program (readAt (weight + 1 + 1))).run
      (.start file (opening :: tokens ++ [last]) [.empty true] 0) =
        .ok ([node], (State.start file [] [.empty true] 0).at [last]) := by
    refine (run_bind_ok hstatements _).trans ?_
    rw [run_current_bind, hlast]
    rfl
  rw [parse, Parser.run', hweight, hprogram]
  rfl

end Program

/-- **Numbers and binary operators form one tree.**  The numbers stand in it in the order of the
tokens, tighter operators below looser ones, operators of one level grouped to the left and powers
to the right; no other tree has these properties.  Only the nesting of powers is bounded, at 60. -/
theorem parse_operators (file : String) (first : Int) (pairs : List (BinaryOp × Int))
    (tokens : List Located)
    (htokens : tokens.map (·.token) = operationTokens first pairs ++ [.done])
    (hshort : HasShortPowers pairs) :
    ∃ node, parse file tokens = .ok [node] ∧ node.InOrder (operationTokens first pairs) ∧
      node.Grouped ∧ ∀ other : Node, other.InOrder (operationTokens first pairs) →
        other.Grouped → other.bare = node.bare := by
  obtain ⟨located, ends, rfl, hlocated, hends⟩ := map_eq_append_iff.1 htokens
  obtain ⟨last, others, rfl, hlast, hothers⟩ := map_eq_cons_iff.1 hends
  obtain rfl : others = [] := map_eq_nil_iff.1 hothers
  obtain ⟨number, others, rfl, hnumber, -⟩ := map_eq_cons_iff.1 hlocated
  -- sixty powers and the statement itself
  have hdepth : 0 + 61 ≤ maxNesting := by decide
  have hstatement : ∀ bound, (number :: others ++ [last]).length ≤ bound →
      Yields (Rule.statement (readAt bound)) (.start file [] [.empty true] 0) (number :: others)
        [last] (Node.IsOperation 0 (operationTokens first pairs)) := fun bound hbound =>
    yields_statement_operators rfl hdepth hshort hlocated hlast hbound
  obtain ⟨node, hparse, hnode⟩ := parse_of_yields_statement file (by rw [hnumber]; rfl)
    (by rw [hnumber]; rfl) hlast hstatement
  refine ⟨node, hparse, hnode.inOrder, hnode.grouped, ?_⟩
  intro other hinOrder hgrouped
  exact hnode.grouped.isOnlyTree _ other hnode.inOrder hgrouped hinOrder

/-- The operators of `1 - 2 - 3 ** 2 ** 2 * 4 == 5 || 6`, each with the number behind it. -/
def mixedPairs : List (BinaryOp × Int) :=
  [(.sub, 2), (.sub, 3), (.pow, 2), (.pow, 2), (.mul, 4), (.equal, 5), (.or, 6)]

theorem parse_operators_mixed :
    let tokens := (operationTokens 1 mixedPairs ++ [Token.done]).map (Located.mk · 1 true)
    HasShortPowers mixedPairs ∧ ∃ node, parse "Fastfile" tokens = .ok [node] ∧
      node.InOrder (operationTokens 1 mixedPairs) ∧ node.Grouped ∧
      ∀ other : Node, other.InOrder (operationTokens 1 mixedPairs) → other.Grouped →
        other.bare = node.bare := by
  have hshort : HasShortPowers mixedPairs := by
    intro hlong
    exact absurd hlong.length_le (by decide)
  exact ⟨hshort, parse_operators _ 1 mixedPairs _ rfl hshort⟩

end LaneScript
