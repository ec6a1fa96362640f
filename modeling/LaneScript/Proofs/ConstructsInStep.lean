import LaneScript.Proofs.GroupedKeywords
import LaneScript.Proofs.ReadersInStep

/-!
# The constructs of the grammar in step

Two readers for the parts of what is read may be in step, `ReadersInStep`: then so are the rules
with them.  As for the balance there is one lemma for a rule, which follows the rule line by line.
Here are the rules for literals, for arguments and other lists, for bodies and blocks, for calls and
for what a keyword opens; the others are in `RulesInStep`.

The readers are good for states with no more to read than a limit `b`.  The rules that a reader may
be asked for are in step also where there is one more to read, at `b + 1`, because they take a token
before they ask.  Some rules are used only behind a token that has been taken, as those for what
stands behind a keyword, and these are in step at `b`.

`Nonterminal.least` tells how many tokens are taken at least: one for what is an expression or holds
one, and one for each clause of a `rescue` or `case`, which is its keyword.
-/

namespace LaneScript

open LaneScript.Parser
open List

variable {parts : List StringPart} {limit : Nat}

/-! ### Nonterminals -/

namespace Nonterminal

/-- The nonterminal with the lines of its nodes changed. -/
def mapLines (f : Nat → Nat) : Nonterminal → Nonterminal
  | .modifiers node => .modifiers (node.mapLines f)
  | .conditionTail left => .conditionTail (left.mapLines f)
  | .operationTail level tighter left => .operationTail level tighter (left.mapLines f)
  | .chain node => .chain (node.mapLines f)
  | .constPath path line => .constPath (path.mapLines f) (f line)
  | n => n

/-- What is read for a nonterminal, with its lines changed. -/
def mapTree (f : Nat → Nat) : (n : Nonterminal) → n.Tree → (n.mapLines f).Tree
  | .statements _, nodes | .moreArguments, nodes | .moreItems _, nodes | .moreEntries, nodes
  | .targets, nodes | .moreClasses, nodes => mapLinesAll f nodes
  | .params _, found => mapLinesParams f found
  | .rescues, found => mapLinesRescues f found
  | .whens, found => mapLinesWhens f found
  | .otherwise, found => mapLinesAll? f found
  | .modifiers _, node | .condition, node | .conditionTail _, node | .negation, node
  | .expression, node | .ternary, node | .operation _, node | .operationTail _ _ _, node
  | .signed, node | .unary, node | .chain _, node | .argument, node | .argumentValue, node
  | .constPath _ _, node => Node.mapLines f node

/-- How many tokens at least are taken to read the tree for the nonterminal. -/
def least : (n : Nonterminal) → n.Tree → Nat
  | .rescues, found => List.length found
  | .whens, found => List.length found
  | .condition, _ | .negation, _ | .expression, _ | .ternary, _ | .operation _, _ | .signed, _
  | .unary, _ | .argument, _ | .argumentValue, _ | .targets, _ => 1
  | _, _ => 0

/-- A list of items is closed by a mark. -/
def IsClosedByMark : Nonterminal → Prop
  | .moreItems close => close.isPlain = true
  | _ => True

end Nonterminal

/-- The readers are in step for every nonterminal. -/
def ReadersInStep (m : Move) (limit : Nat) (read read' : Reader) : Prop :=
  ∀ n : Nonterminal, n.IsClosedByMark →
    InStep m limit (read n) (read' (n.mapLines m.line)) (n.mapTree m.line) n.least

/-! ### Parts of strings -/

/-- All code among the parts is shorter than the limit. -/
def CodesWithin (limit : Nat) (parts : List StringPart) : Prop :=
  ∀ source line, .code source line ∈ parts → source.length < limit

section Parts

variable (f : Nat → Nat)

/-- Adding a part and moving the lines commute. -/
theorem appendPart_mapLines (parts : List StringPart) (part : StringPart) :
    appendPart (parts.map (·.mapLines f)) (part.mapLines f) =
      (appendPart parts part).map (·.mapLines f) := by
  have happend : ∀ (parts : List StringPart) (part : StringPart),
      parts.map (·.mapLines f) ++ [part.mapLines f] = (parts ++ [part]).map (·.mapLines f) := by
    intro parts part
    rw [map_append, map_singleton]
  cases part with
  | code source line => exact happend parts (.code source line)
  | text content =>
    -- text goes into the text before it, and changed lines leave both as they are
    rw [StringPart.mapLines, appendPart, appendPart, getLast?_map]
    split
    · rfl
    · cases parts.getLast? with
      | none => exact happend parts (.text content)
      | some last =>
        cases last with
        | code source line => exact happend parts (.text content)
        | text before =>
          have hdrop := happend parts.dropLast (.text (before ++ content))
          rw [map_dropLast] at hdrop
          exact hdrop

/-- The same for adding parts one after another. -/
theorem foldl_appendPart_mapLines (parts others : List StringPart) :
    (others.map (·.mapLines f)).foldl appendPart (parts.map (·.mapLines f)) =
      (others.foldl appendPart parts).map (·.mapLines f) := by
  induction others generalizing parts with
  | nil => rfl
  | cons other others ih =>
    rw [map_cons, foldl_cons, appendPart_mapLines, ih, foldl_cons]

/-- The same for joining two literals, where an empty one leaves no part. -/
theorem appendParts_mapLines (parts others : List StringPart) :
    appendParts (parts.map (·.mapLines f)) (others.map (·.mapLines f)) =
      (appendParts parts others).map (·.mapLines f) := by
  have hempty : ∀ part : StringPart, (part.mapLines f).isEmptyText = part.isEmptyText := by
    intro part
    cases part <;> rfl
  unfold appendParts
  dsimp only
  rw [foldl_appendPart_mapLines, length_map]
  split
  · rw [filter_map]
    congr 2
    funext part
    exact congrArg _ (hempty part)
  · rfl

/-- The same for the literals that stand side by side. -/
theorem foldl_appendParts_mapLines (first : List StringPart) (others : List (List StringPart)) :
    (others.map (List.map (·.mapLines f))).foldl appendParts (first.map (·.mapLines f)) =
      (others.foldl appendParts first).map (·.mapLines f) := by
  induction others generalizing first with
  | nil => rfl
  | cons other others ih =>
    rw [map_cons, foldl_cons, appendParts_mapLines, ih, foldl_cons]

/-- Only texts are merged, so the code of a literal is code of one of its parts. -/
theorem mem_appendPart {part : StringPart} {source : String} {line : Nat}
    (h : .code source line ∈ appendPart parts part) :
    .code source line ∈ parts ∨ .code source line = part := by
  unfold appendPart at h
  split at h
  · split at h
    · exact .inl h
    · split at h
      -- the merged text takes the place of the last part
      · rcases mem_append.1 h with h | h
        · exact .inl (dropLast_subset _ h)
        · cases mem_singleton.1 h
      · rcases mem_append.1 h with h | h
        · exact .inl h
        · cases mem_singleton.1 h
  · rcases mem_append.1 h with h | h
    · exact .inl h
    · exact .inr (mem_singleton.1 h)

theorem CodesWithin.foldl_appendPart {parts others : List StringPart} (h : CodesWithin limit parts)
    (hothers : CodesWithin limit others) :
    CodesWithin limit (others.foldl appendPart parts) := by
  induction others generalizing parts with
  | nil => exact h
  | cons other others ih =>
    refine ih ?_ fun source line hcode => hothers source line (mem_cons_of_mem _ hcode)
    intro source line hcode
    rcases mem_appendPart hcode with hcode | rfl
    · exact h source line hcode
    · exact hothers source line mem_cons_self

/-- Joining two literals makes no code longer. -/
theorem CodesWithin.appendParts {parts others : List StringPart} (h : CodesWithin limit parts)
    (hothers : CodesWithin limit others) :
    CodesWithin limit (appendParts parts others) := by
  have hjoined := h.foldl_appendPart hothers
  intro source line hcode
  unfold LaneScript.appendParts at hcode
  dsimp only at hcode
  split at hcode
  · exact hjoined source line (mem_filter.1 hcode).1
  · exact hjoined source line hcode

theorem CodesWithin.foldl_appendParts {first : List StringPart} {others : List (List StringPart)}
    (h : CodesWithin limit first) (hothers : ∀ parts ∈ others, CodesWithin limit parts) :
    CodesWithin limit (others.foldl LaneScript.appendParts first) := by
  induction others generalizing first with
  | nil => exact h
  | cons other others ih =>
    exact ih (h.appendParts (hothers other mem_cons_self))
      fun parts hparts => hothers parts (mem_cons_of_mem _ hparts)

/-- The strings that stand side by side are among the tokens. -/
theorem mem_of_mem_strings {cursor : Cursor} (h : parts ∈ cursor.strings.1) :
    ∃ here ∈ cursor.tokens, here.token = .str parts := by
  obtain ⟨current, ahead⟩ := cursor
  change parts ∈ (Cursor.stringsFrom current ahead).1 at h
  induction ahead generalizing current with
  | nil => cases h
  | cons next others ih =>
    rw [Cursor.stringsFrom] at h
    -- the run ends at the first token that is no string
    split at h
    next first htoken =>
      rcases mem_cons.1 h with rfl | h
      · exact ⟨current, mem_cons_self, htoken⟩
      · obtain ⟨here, hhere, hparts⟩ := ih next h
        exact ⟨here, mem_cons_of_mem _ hhere, hparts⟩
    · cases h

end Parts

section Rules

variable {m : Move} {b : Nat} {read read' : Reader} (hread : ReadersInStep m b read read')
include hread

/-! ### Literals -/

theorem inStep_program :
    InStep m b (Rule.program read) (Rule.program read') (mapLinesAll m.line) := by
  refine (hread (.statements []) trivial).bind fun body => .current_bind fun here _ _ => ?_
  exact .ite_bool (here.token.bne_done_mapLines _) .unexpected_bind (inStep_pure rfl rfl)

/-- A whole script, from its first token. -/
theorem outcome_program_start {tokens : List Located} (hends : EndsOnce tokens)
    (hload : tokensWeight tokens ≤ b) (file : String) (scopes : List Scope) (depth : Nat) :
    (Rule.program read').outcome (.start m.file (tokens.map (·.mapLines m.line)) scopes depth) =
        mapOutcome m (mapLinesAll m.line)
          ((Rule.program read).outcome (.start file tokens scopes depth)) ∧
      (State.start file tokens scopes depth).Advances (fun _ => 0)
        ((Rule.program read).outcome (.start file tokens scopes depth)) := by
  have htokens := State.tokens_start file hends.ne_nil scopes depth
  rw [State.start_moved _ file hends.ne_nil]
  exact inStep_program hread _ (htokens.symm ▸ hends) (htokens.symm ▸ hload) trivial

/-- What comes of an interpolation, by what comes of the script that its code is: of that script's
state only the variables are kept. -/
def interpolated (s : State) :
    EStateM.Result Failure State (List Node) → EStateM.Result Failure State (List Node)
  | .ok body inner => .ok body { s with scopes := Scope.absorb inner.scopes s.scopes }
  | .error failure _ => .error failure s

omit hread in
/-- The code of an interpolation is read as a script of its own. -/
theorem outcome_interpolation {source : String} {line : Nat} {tokens : List Located} {s : State}
    (h : lexFrom s.file line source = .ok tokens) (read : Reader) :
    (Rule.interpolation read source line).outcome s =
      interpolated s ((Rule.program read).outcome
        (.start s.file tokens s.scopes (s.depth + 1))) := by
  rw [Rule.interpolation, outcome_get_bind, h]
  change Parser.outcome (do
    let found ← lift ((Rule.program read).run (.start s.file tokens s.scopes (s.depth + 1)))
    set { s with scopes := Scope.absorb found.2.scopes s.scopes }
    return found.1 : Parser (List Node)) s = _
  rw [Parser.run]
  cases (Rule.program read).outcome (.start s.file tokens s.scopes (s.depth + 1)) <;> rfl

/-- The code is shorter than the text it stands in, so the inner run is within the bound. -/
theorem inStep_interpolation {source : String} (hsource : source.length < b) (line limit : Nat) :
    InStep m limit (Rule.interpolation read source line)
      (Rule.interpolation read' source (m.line line)) (mapLinesAll m.line) := by
  intro s _ _ _
  have hmoved : lexFrom (s.moved m).file (m.line line) source = _ :=
    lexFrom_moved m s.file line source
  cases hlex : lexFrom s.file line source with
  | error failure =>
    rw [hlex] at hmoved
    rw [Rule.interpolation, Rule.interpolation, outcome_get_bind, outcome_get_bind, hlex, hmoved]
    exact ⟨rfl, suffix_refl _, fault_ne_of_lexFrom hlex rfl⟩
  | ok tokens =>
    rw [hlex] at hmoved
    rw [outcome_interpolation hlex, outcome_interpolation hmoved]
    -- the code is shorter than the bound, so its tokens can be read with the readers at hand
    have hload : tokensWeight tokens ≤ b := (tokensWeight_lexFrom_le hlex).trans hsource
    obtain ⟨hrun, hadvances⟩ :=
      outcome_program_start hread (endsOnce_lexFrom hlex) hload s.file s.scopes (s.depth + 1)
    change interpolated (s.moved m) ((Rule.program read').outcome
      (.start m.file (tokens.map (·.mapLines m.line)) s.scopes (s.depth + 1))) = _ ∧ _
    rw [hrun]
    cases hresult : (Rule.program read).outcome
        (.start s.file tokens s.scopes (s.depth + 1)) with
    | error failure inner =>
      rw [hresult] at hadvances
      exact ⟨rfl, suffix_refl _, hadvances.2⟩
    | ok body inner => exact ⟨rfl, suffix_refl _, Nat.le_refl _⟩

/-- Every segment is a text or the script of an interpolation. -/
theorem inStep_segments (hparts : CodesWithin b parts) (limit : Nat) :
    InStep m limit (Rule.segments read parts)
      (Rule.segments read' (parts.map (·.mapLines m.line))) (mapLinesSegments m.line) := by
  induction parts with
  | nil => exact inStep_pure rfl rfl
  | cons part others ih =>
    have hothers := ih fun source line hcode => hparts source line (mem_cons_of_mem _ hcode)
    cases part with
    | text content => exact hothers.bind fun _ => inStep_pure rfl rfl
    | code source line =>
      have hsource := hparts source line mem_cons_self
      refine (inStep_interpolation hread hsource line limit).bind fun body => ?_
      exact hothers.bind fun _ => inStep_pure rfl rfl

omit hread in
/-- Whether there is code in a literal does not depend on its line. -/
theorem mapM_plainText?_mapLines (f : Nat → Nat) (segments : List Segment) :
    (mapLinesSegments f segments).mapM Rule.plainText? = segments.mapM Rule.plainText? := by
  induction segments with
  | nil => rfl
  | cons segment segments ih =>
    rw [mapLinesSegments, mapM_cons, mapM_cons, ih]
    cases segment <;> rfl

theorem inStep_stringForm (hparts : CodesWithin b parts) (limit : Nat) :
    InStep m limit (Rule.stringForm read parts)
      (Rule.stringForm read' (parts.map (·.mapLines m.line))) (Form.mapLines m.line) := by
  refine (inStep_segments hread hparts limit).bind fun found => ?_
  rw [mapM_plainText?_mapLines]
  cases found.mapM Rule.plainText? with
  | some texts => exact inStep_pure rfl rfl
  | none => exact inStep_pure rfl rfl

/-- The literals behind the first are among the tokens, so their code is short too. -/
theorem inStep_strings {first : List StringPart} (hfirst : CodesWithin b first) :
    InStep m b (Rule.strings read first)
      (Rule.strings read' (first.map (·.mapLines m.line))) (Form.mapLines m.line) := by
  intro s hends hload hP
  -- the strings that follow are among the tokens, so that their code is within the bound too
  have hstrings : ∀ parts ∈ s.cursor.strings.1, CodesWithin b parts := by
    intro parts hparts source line hcode
    obtain ⟨here, hhere, htoken⟩ := mem_of_mem_strings hparts
    have hparts' : here.token.parts = parts := congrArg Token.parts htoken
    have hlength := length_le_tokensWeight_of_code hhere (hparts'.symm ▸ hcode)
    omega
  have hform := inStep_stringForm hread (hfirst.foldl_appendParts hstrings) b
  rw [← foldl_appendParts_mapLines] at hform
  have hmove : InStep m b (modify fun s => { s with cursor := s.cursor.strings.2 })
      (modify fun s => { s with cursor := s.cursor.strings.2 }) id :=
    inStep_move Cursor.tokens_strings fun cursor => congrArg Prod.snd (cursor.strings_mapLines _)
  -- the place behind the strings is found from the state, and then set
  have hbehind : InStep m b (modify (fun s => { s with cursor := s.cursor.strings.2 }) >>= fun _ =>
        Rule.stringForm read (s.cursor.strings.1.foldl appendParts first))
      (modify (fun s => { s with cursor := s.cursor.strings.2 }) >>= fun _ =>
        Rule.stringForm read' ((s.cursor.strings.1.map (List.map (·.mapLines m.line))).foldl
          appendParts (first.map (·.mapLines m.line))))
      (Form.mapLines m.line) := hmove.bind fun _ => hform
  have hrun := hbehind s hends hload trivial
  have hothers : (s.moved m).cursor.strings.1 = s.cursor.strings.1.map _ :=
    congrArg Prod.fst (s.cursor.strings_mapLines m.line)
  rw [← hothers] at hrun
  exact hrun

/-! ### Arguments, items and entries -/

/-- The comma is taken before the next argument is read. -/
theorem inStep_moreArguments :
    InStep m (b + 1) (Rule.moreArguments read) (Rule.moreArguments read') (mapLinesAll m.line) := by
  refine .eat_behind rfl ?_ (inStep_pure rfl rfl)
  refine inStep_skipNewlines.bind fun _ => (hread .argument trivial).bind fun arg => ?_
  exact (hread .moreArguments trivial).bind fun others => inStep_pure rfl rfl

/-- The comma is taken before the next item is read. -/
theorem inStep_moreItems {close : Token} (hclose : close.isPlain = true) :
    InStep m (b + 1) (Rule.moreItems read close) (Rule.moreItems read' close)
      (mapLinesAll m.line) := by
  refine inStep_skipNewlines.bind fun _ => .eat_behind rfl ?_ (inStep_pure rfl rfl)
  refine inStep_skipNewlines.bind fun _ => .isAt_bind hclose fun closed => ?_
  refine .ite_bool rfl (inStep_pure rfl rfl) ?_
  refine (hread .argument trivial).bind fun item => ?_
  exact (hread (.moreItems close) hclose).bind fun others => inStep_pure rfl rfl

/-- The token that closes a list has no line in the tree. -/
theorem inStep_items {close : Token} (hclose : close.isPlain = true) (closeText : String) :
    InStep m b (Rule.items read close closeText) (Rule.items read' close closeText)
      (mapLinesAll m.line) := by
  refine InStepAt.allowingDo (inStep_skipNewlines.bind fun _ => .isAt_bind hclose fun closed => ?_)
  extract_lets rest
  have hrest : ∀ found, InStep m b (rest found) (rest (mapLinesAll m.line found))
      (mapLinesAll m.line) :=
    fun found => (inStep_expect hclose closeText).bind fun _ =>
      inStep_pure (groupKeywords_mapLinesAll _ found) rfl
  refine .ite_bool rfl (hrest []) ?_
  refine (hread .argument trivial).bind fun item => ?_
  exact (hread (.moreItems close) hclose).bind fun others => hrest (item :: others)

theorem inStep_commandArguments :
    InStep m b (Rule.commandArguments read) (Rule.commandArguments read') (mapLinesAll m.line) := by
  refine InStepAt.leavingDo ((hread .argument trivial).bind fun arg => ?_)
  exact (hread .moreArguments trivial).bind fun others =>
    inStep_pure (groupKeywords_mapLinesAll _ (arg :: others)) rfl

omit hread in
/-- Whether an argument starts is seen from two tokens and the blanks at them. -/
theorem startsArgument_mapLines (f : Nat → Nat) (here next : Located) :
    (here.mapLines f).startsArgument (next.mapLines f) = here.startsArgument next := by
  obtain ⟨token, line, spaced⟩ := here
  cases token <;> rfl

omit hread in
theorem InStepAt.startsArgument_bind {α α' : Type} {P : Located → Prop} {f : Bool → Parser α}
    {f' : Bool → Parser α'} {τ : α → α'} {least : α → Nat}
    (hf : ∀ found, InStepAt P m limit (f found) (f' found) τ least) :
    InStepAt P m limit (Rule.startsArgument >>= f) (Rule.startsArgument >>= f') τ least := by
  refine .look_bind (σ := id) (g := fun s => s.cursor.current.startsArgument (s.cursor.peek 1))
    (fun _ => rfl) (fun s => ?_) fun _ _ => hf _
  have hpeek := s.cursor.peek_mapLines m.line 1
  have hstarts := startsArgument_mapLines m.line s.cursor.current (s.cursor.peek 1)
  rw [← hpeek] at hstarts
  exact congrArg (fun found => EStateM.Result.ok found (s.moved m)) hstarts

/-- Arguments stand in parentheses or, if one starts here, without them. -/
theorem inStep_arguments? :
    InStep m b (Rule.arguments? read) (Rule.arguments? read') (mapLinesAll? m.line) := by
  refine .isAtCallParen_bind fun paren => .ite_bool rfl ?_ (.startsArgument_bind fun starts => ?_)
  · refine inStep_advance.bind fun _ => ?_
    exact (inStep_items hread rfl _).bind fun _ => inStep_pure rfl rfl
  · refine .ite_bool rfl ?_ (inStep_pure rfl rfl)
    exact (inStep_commandArguments hread).bind fun _ => inStep_pure rfl rfl

/-- An entry has a label, or a key and an arrow, or is splatted. -/
theorem inStep_entry : InStep m b (Rule.entry read) (Rule.entry read') (Node.mapLines m.line) := by
  -- an entry without a label, on the line of its first token
  have hother : ∀ line, InStep m b (do
        if ← eatOp (.binary .pow) then
          return (⟨.doubleSplat (← read .ternary), line⟩ : Node)
        else
          let key ← read .ternary
          skipNewlines
          expect .arrow "=>"
          skipNewlines
          let value ← read .argumentValue
          return Node.pair key value line) (do
        if ← eatOp (.binary .pow) then
          return (⟨.doubleSplat (← read' .ternary), m.line line⟩ : Node)
        else
          let key ← read' .ternary
          skipNewlines
          expect .arrow "=>"
          skipNewlines
          let value ← read' .argumentValue
          return Node.pair key value (m.line line)) (Node.mapLines m.line) := by
    intro line
    refine .eat_ite rfl ?_ ?_
    · exact (hread .ternary trivial).bind fun _ => inStep_pure rfl rfl
    · refine (hread .ternary trivial).bind fun key => inStep_skipNewlines.bind fun _ => ?_
      refine (inStep_expect rfl _).bind fun _ => inStep_skipNewlines.bind fun _ => ?_
      exact (hread .argumentValue trivial).bind fun _ => inStep_pure rfl rfl
  refine .current_bind fun here _ _ => ?_
  obtain ⟨token, line, spaced⟩ := here
  cases token with
  | label key =>
    refine inStep_advance.bind fun _ => inStep_skipNewlines.bind fun _ => ?_
    exact (hread .argumentValue trivial).bind fun _ => inStep_pure rfl rfl
  | _ => exact (hother line).here

/-- The comma is taken before the next entry is read. -/
theorem inStep_moreEntries :
    InStep m (b + 1) (Rule.moreEntries read) (Rule.moreEntries read') (mapLinesAll m.line) := by
  refine inStep_skipNewlines.bind fun _ => .eat_behind rfl ?_ (inStep_pure rfl rfl)
  refine inStep_skipNewlines.bind fun _ => .isAt_bind rfl fun closed => ?_
  refine .ite_bool rfl (inStep_pure rfl rfl) ?_
  refine (inStep_entry hread).bind fun found => ?_
  exact (hread .moreEntries trivial).bind fun others => inStep_pure rfl rfl

theorem inStep_entries :
    InStep m b (Rule.entries read) (Rule.entries read') (mapLinesAll m.line) := by
  refine InStepAt.allowingDo (inStep_skipNewlines.bind fun _ => .isAt_bind rfl fun closed => ?_)
  extract_lets rest
  have hrest : ∀ found, InStep m b (rest found) (rest (mapLinesAll m.line found))
      (mapLinesAll m.line) :=
    fun found => (inStep_expect rfl _).bind fun _ => inStep_pure rfl rfl
  refine .ite_bool rfl (hrest []) ?_
  refine (inStep_entry hread).bind fun first => ?_
  exact (hread .moreEntries trivial).bind fun others => hrest (first :: others)

/-! ### Bodies, parameters and blocks -/

omit hread in
theorem endsClasses_mapLines (f : Nat → Nat) (token : Token) :
    Rule.endsClasses (token.mapLines f) = Rule.endsClasses token := by
  cases token <;> rfl

/-- The comma is taken before the next class is read. -/
theorem inStep_moreClasses :
    InStep m (b + 1) (Rule.moreClasses read) (Rule.moreClasses read') (mapLinesAll m.line) := by
  refine .eat_behind rfl ?_ (inStep_pure rfl rfl)
  refine inStep_skipNewlines.bind fun _ => .current_bind fun here _ _ => ?_
  refine .ite_bool (endsClasses_mapLines _ here.token) (inStep_pure rfl rfl) ?_
  refine (hread .ternary trivial).bind fun found => ?_
  exact (hread .moreClasses trivial).bind fun others => inStep_pure rfl rfl

omit hread in
theorem inStep_rescueBinder :
    InStep m b Rule.rescueBinder Rule.rescueBinder (Node.mapLines m.line) := by
  refine .line_bind fun line => inStep_next.bind fun token => ?_
  cases token with
  | word name => exact (inStep_declare name).bind fun _ => inStep_pure rfl rfl
  | var sigil name =>
    cases sigil with
    | classLevel => exact inStep_fail Fault.noConfusion
    | _ => exact inStep_pure rfl rfl
  | _ => exact inStep_fail Fault.noConfusion

/-- A clause has classes, a name for the error and a body, each of them optional. -/
theorem inStep_rescueClause :
    InStep m b (Rule.rescueClause read) (Rule.rescueClause read') (Rescue.mapLines m.line) := by
  refine .current_bind fun here _ _ => ?_
  extract_lets rest rest'
  -- the rest of the clause, behind the classes
  have hrest : ∀ classes, InStep m b (rest classes) (rest' (mapLinesAll m.line classes))
      (Rescue.mapLines m.line) := by
    intro classes
    refine .eat_ite rfl (inStep_rescueBinder.bind fun binder => ?_) ?_
    all_goals
      rw [pure_bind, pure_bind]
      refine (inStep_eat rfl).bind fun _ => ?_
      exact (hread (.statements Rule.clauseWords) trivial).bind fun _ => inStep_pure rfl rfl
  refine .ite_bool (endsClasses_mapLines _ here.token) (hrest []).here ?_
  refine (hread .ternary trivial).bind fun first => ?_
  exact (hread .moreClasses trivial).bind fun others => hrest (first :: others)

/-- Every clause takes its keyword. -/
theorem inStep_rescues :
    InStep m (b + 1) (Rule.rescues read) (Rule.rescues read') (mapLinesRescues m.line)
      List.length := by
  -- the keyword pays for the clause, and the others pay for themselves
  refine .eat_behind rfl ?_ (inStep_pure rfl rfl)
  refine (inStep_rescueClause hread).bind fun clause => ?_
  exact (hread .rescues trivial).map (fun _ => rfl) fun _ => Nat.le_refl _

theorem inStep_statementsBehind? (keyword : String) (stops : List String) :
    InStep m (b + 1) (Rule.statementsBehind? read keyword stops)
      (Rule.statementsBehind? read' keyword stops) (mapLinesAll? m.line) := by
  refine .eat_behind rfl ?_ (inStep_pure rfl rfl)
  exact (hread (.statements stops) trivial).bind fun _ => inStep_pure rfl rfl

/-- A body and its clauses with their lines changed. -/
def Rule.Clauses.mapLines (f : Nat → Nat) (clauses : Clauses) : Clauses :=
  ⟨mapLinesAll f clauses.body, mapLinesRescues f clauses.rescues,
    mapLinesAll? f clauses.otherwise, mapLinesAll? f clauses.ensure⟩

/-- The clauses come in their order, behind the body. -/
theorem inStep_clauses :
    InStep m b (Rule.clauses read) (Rule.clauses read') (Rule.Clauses.mapLines m.line) := by
  refine (hread (.statements Rule.clauseWords) trivial).bind fun body => ?_
  refine (hread .rescues trivial).bind fun rescues => ?_
  refine (inStep_statementsBehind? hread _ _).within.bind fun otherwise => ?_
  refine (inStep_statementsBehind? hread _ _).within.bind fun ensure => ?_
  exact (inStep_expect rfl _).bind fun _ => inStep_pure rfl (Nat.zero_sub _)

theorem inStep_bodyToEnd :
    InStep m b (Rule.bodyToEnd read) (Rule.bodyToEnd read') (mapLinesAll m.line) := by
  refine .line_bind fun line => (inStep_clauses hread).bind fun found => inStep_pure ?_ rfl
  -- whether a body has clauses does not depend on their lines
  have hplain : (found.mapLines m.line).isPlain = found.isPlain := by
    obtain ⟨body, rescues, otherwise, ensure⟩ := found
    cases rescues <;> cases otherwise <;> cases ensure <;> rfl
  rw [hplain]
  split <;> rfl

omit hread in
/-- A name alone has no line. -/
theorem inStep_optionalName : InStep m b Rule.optionalName Rule.optionalName id := by
  refine .current_bind fun here _ _ => ?_
  obtain ⟨token, line, spaced⟩ := here
  cases token with
  | word name => exact inStep_advance.bind fun _ => inStep_pure rfl rfl
  | _ => exact inStep_pure rfl rfl

theorem inStep_parenParams :
    InStep m b (Rule.parenParams read) (Rule.parenParams read') (mapLinesParams m.line) := by
  refine (hread (.params .paren) trivial).bind fun found => ?_
  exact (inStep_expect rfl _).bind fun _ => inStep_pure rfl rfl

omit hread in
theorem endsKeyword_mapLines (f : Nat → Nat) (token : Token) :
    Rule.endsKeyword (token.mapLines f) = Rule.endsKeyword token := by
  cases token <;> rfl

/-- A parameter takes a token: its name at least, or the mark in front of it. -/
theorem inStep_param :
    InStep m (b + 1) (Rule.param read) (Rule.param read') (Param.mapLines m.line)
      fun _ => 1 := by
  refine .eat_behind rfl (inStep_optionalName.bind fun _ => inStep_pure rfl rfl) ?_
  refine .eat_behind rfl (inStep_optionalName.bind fun _ => inStep_pure rfl rfl) ?_
  refine .eat_behind rfl (inStep_takeWord.bind fun _ => inStep_pure rfl rfl) ?_
  refine .eat_behind rfl ((inStep_parenParams hread).bind fun _ => inStep_pure rfl rfl) ?_
  -- a name, which may have a default
  have hnamed : InStep m (b + 1) (do
        let name ← takeWord
        if ← eatOp .assign then return Param.optional name (← read .ternary)
        else return .required name) (do
        let name ← takeWord
        if ← eatOp .assign then return Param.optional name (← read' .ternary)
        else return .required name) (Param.mapLines m.line) fun _ => 1 := by
    refine inStep_takeWord.bind_behind (fun _ => Nat.one_pos) fun name => ?_
    refine .eat_ite rfl ?_ (inStep_pure rfl rfl)
    exact (hread .ternary trivial).bind fun _ => inStep_pure rfl rfl
  refine .current_bind fun here _ _ => ?_
  obtain ⟨token, line, spaced⟩ := here
  cases token with
  | label name =>
    refine .advance_behind (ne_done_of_eq Token.noConfusion) (.current_bind fun behind _ _ => ?_)
    refine .ite_bool (endsKeyword_mapLines _ behind.token) (inStep_pure rfl rfl) ?_
    exact (hread .ternary trivial).bind fun _ => inStep_pure rfl rfl
  | _ => exact hnamed.here

omit hread in
theorem isAt_mapLines (f : Nat → Nat) (stop : ParamsEnd) (token : Token) :
    stop.isAt (token.mapLines f) = stop.isAt token := by
  cases stop <;> cases token <;> rfl

omit hread in
/-- The names of the parameters are declared the same in both places. -/
theorem name?_mapLines (f : Nat → Nat) (param : Param) :
    (param.mapLines f).name? = param.name? := by
  cases param <;> rfl

/-- A parameter was taken, so the others are read within the bound. -/
theorem inStep_params (stop : ParamsEnd) :
    InStep m (b + 1) (Rule.params read stop) (Rule.params read' stop) (mapLinesParams m.line) := by
  refine inStep_skipNewlines.bind fun _ => .current_bind fun here _ _ => ?_
  refine .ite_bool (isAt_mapLines _ stop here.token) (inStep_pure rfl rfl) ?_
  refine (inStep_param hread).bind_behind (fun _ => Nat.one_pos) fun first => ?_
  extract_lets rest rest'
  have hrest : InStep m b (rest ()) (rest' ()) (mapLinesParams m.line) := by
    refine inStep_skipNewlines.bind fun _ => .eat_ite rfl ?_ (inStep_pure rfl rfl)
    exact (hread (.params stop) trivial).bind fun _ => inStep_pure rfl rfl
  rw [name?_mapLines]
  cases first.name? with
  | some name => exact (inStep_declare name).bind fun _ => hrest
  | none => exact hrest

theorem inStep_bracedBody :
    InStep m b (Rule.bracedBody read) (Rule.bracedBody read') (mapLinesAll m.line) := by
  refine InStep.bind (InStepAt.allowingDo (hread (.statements []) trivial)) fun body => ?_
  exact (inStep_expect rfl _).bind fun _ => inStep_pure rfl rfl

theorem inStep_blockParams :
    InStep m b (Rule.blockParams read) (Rule.blockParams read') (mapLinesParams m.line) := by
  refine .eat_ite rfl (inStep_pure rfl rfl) (.eat_ite rfl ?_ (inStep_pure rfl rfl))
  refine InStep.bind (InStepAt.closedByPipe (hread (.params .pipe) trivial)) fun found => ?_
  exact (inStep_expect rfl _).bind fun _ => inStep_pure rfl rfl

/-- A block is read in a scope of its own, which both runs leave alike. -/
theorem inStep_block (call : Node) :
    InStep m b (Rule.block read call) (Rule.block read' (call.mapLines m.line))
      (Node.mapLines m.line) := by
  obtain ⟨form, line⟩ := call
  refine .isAt_bind rfl fun braces => inStep_advance.bind fun _ => ?_
  refine InStepAt.withScope false ((inStep_blockParams hread).bind fun params => ?_)
  refine .ite_bool rfl ((inStep_bracedBody hread).bind fun body => inStep_pure rfl rfl) ?_
  exact InStep.bind (InStepAt.allowingDo (inStep_bodyToEnd hread)) fun body => inStep_pure rfl rfl

/-- The parameters of a lambda come before its body, in the scope of the body. -/
theorem inStep_lambda (line : Nat) :
    InStep m b (Rule.lambda read line) (Rule.lambda read' (m.line line))
      (Node.mapLines m.line) := by
  refine InStepAt.withScope false (.eat_ite rfl ((inStep_parenParams hread).bind fun params => ?_)
    ((hread (.params .body) trivial).bind fun params => ?_))
  all_goals
    refine .eat_ite rfl ((inStep_bracedBody hread).bind fun _ => inStep_pure rfl rfl) ?_
    refine (inStep_expect rfl _).bind fun _ => ?_
    exact InStep.bind (InStepAt.allowingDo (inStep_bodyToEnd hread)) fun _ => inStep_pure rfl rfl

/-! ### Calls and what is chained to a value -/

/-- The arguments of a call come first, then its block. -/
theorem inStep_call (receiver : Option Node) (name : String) (safe : Bool) (line : Nat) :
    InStep m b (Rule.call read receiver name safe line)
      (Rule.call read' (mapLines? m.line receiver) name safe (m.line line))
      (Node.mapLines m.line) := by
  refine .isAtCallParen_bind fun paren => (inStep_arguments? hread).bind fun args => ?_
  have hargs : (mapLinesAll? m.line args).getD [] = mapLinesAll m.line (args.getD []) := by
    cases args <;> rfl
  rw [hargs]
  refine .isAt_bind rfl fun brace => .isAt_bind rfl fun keyword => .get_bind fun s _ => ?_
  refine .ite_bool ?_ (inStep_block hread _).here (inStep_pure rfl rfl)
  rw [mapLinesAll_isEmpty]
  rfl

omit hread in
theorem inStep_methodName : InStep m b Rule.methodName Rule.methodName id := by
  refine .current_bind fun here _ _ => ?_
  obtain ⟨token, line, spaced⟩ := here
  cases token with
  | word name => exact inStep_advance.bind fun _ => inStep_pure rfl rfl
  | const name => exact inStep_advance.bind fun _ => inStep_pure rfl rfl
  | lparen => exact inStep_pure rfl rfl
  | _ => exact inStep_expected _

/-- The dot is taken; at the end of the input there is none. -/
theorem inStepAt_callOn (receiver : Node) (safe : Bool) :
    InStepAt (·.token ≠ .done) m (b + 1) (Rule.callOn read receiver safe)
      (Rule.callOn read' (receiver.mapLines m.line) safe) (Node.mapLines m.line)
      fun _ => 1 := by
  refine .advance_behind (fun _ h => h) (inStep_skipNewlines.bind fun _ => ?_)
  refine .line_bind fun line => inStep_methodName.bind fun name => ?_
  exact inStep_call hread (some receiver) name safe line

/-- The colons are taken, then the name of a constant or a call. -/
theorem inStepAt_lookedUp (scope : Node) :
    InStepAt (·.token ≠ .done) m (b + 1) (Rule.lookedUp read scope)
      (Rule.lookedUp read' (scope.mapLines m.line)) (Node.mapLines m.line) fun _ => 1 := by
  refine .advance_behind (fun _ h => h) ?_
  refine .current_bind fun here _ _ => .peek_bind 1 fun behind => ?_
  obtain ⟨token, line, spaced⟩ := here
  cases token with
  | const name =>
    refine inStep_advance.bind fun _ => .ite_bool ?_ ?_ (inStep_pure rfl rfl)
    · exact congrArg (· && !behind.spaced) (Token.beq_mapLines rfl _ behind.token)
    · exact inStep_call hread (some scope) name false line
  | word name =>
    exact inStep_advance.bind fun _ => inStep_call hread (some scope) name false line
  | _ => exact inStep_expected _

/-- The bracket is taken, then the items up to the one that closes it. -/
theorem inStepAt_indexed (receiver : Node) :
    InStepAt (·.token ≠ .done) m (b + 1) (Rule.indexed read receiver)
      (Rule.indexed read' (receiver.mapLines m.line)) (Node.mapLines m.line) fun _ => 1 := by
  refine .line_bind fun line => .advance_behind (fun _ h => h) ?_
  exact (inStep_items hread rfl _).bind fun _ => inStep_pure rfl rfl

/-- Each link takes a token, so the rest of the chain is read within the bound. -/
theorem inStep_chain (node : Node) :
    InStep m (b + 1) (Rule.chain read node) (Rule.chain read' (node.mapLines m.line))
      (Node.mapLines m.line) := by
  -- what is read at the current token, and then what is chained to that
  have hlink : ∀ {here : Located} {link : Parser Node} {link' : Parser Node},
      here.token ≠ .done →
      InStepAt (·.token ≠ .done) m (b + 1) link link' (Node.mapLines m.line) (fun _ => 1) →
      InStepAt (· = here) m (b + 1) (link >>= fun next => read (.chain next))
        (link' >>= fun next => read' (.chain next)) (Node.mapLines m.line) :=
    fun hhere h => (h.weaken (ne_done_of_eq hhere)).bind_behind (fun _ => Nat.one_pos)
      fun next => hread (.chain next) trivial
  refine .get_bind fun s _ => ?_
  extract_lets behind rest behind' rest'
  have hrest : InStep m (b + 1) (rest ()) (rest' ()) (Node.mapLines m.line) := by
    refine .current_bind fun here _ _ => ?_
    obtain ⟨token, line, spaced⟩ := here
    cases token with
    | dot => exact hlink Token.noConfusion (inStepAt_callOn hread node false)
    | safeDot => exact hlink Token.noConfusion (inStepAt_callOn hread node true)
    | scope => exact hlink Token.noConfusion (inStepAt_lookedUp hread node)
    | lbracket =>
      refine .ite_bool rfl (inStep_pure rfl rfl) ?_
      exact hlink Token.noConfusion (inStepAt_indexed hread node)
    | _ => exact inStep_pure rfl rfl
  refine .ite_bool ?_ (inStep_skipNewlines.bind fun _ => hrest) hrest
  -- whether the next line goes on with a dot is seen behind its line ends
  have hskip : (s.moved m).cursor.skip (· == .newline) =
      (s.cursor.skip (· == .newline)).mapLines m.line :=
    s.cursor.skip_mapLines _ fun token => Token.beq_mapLines rfl _ token
  unfold behind' behind
  rw [hskip]
  exact congrArg₂ or (Token.beq_mapLines rfl _ _) (Token.beq_mapLines rfl _ _)

/-! ### Conditionals and loops -/

/-- A condition and what divides it from the body. -/
theorem inStep_header :
    InStep m b (Rule.header read) (Rule.header read') (Node.mapLines m.line) := by
  refine (hread .condition trivial).bind fun condition => inStep_skipTerminators.bind fun _ => ?_
  exact (inStep_eat rfl).bind fun _ => inStep_pure rfl rfl

theorem inStep_conditional (line : Nat) :
    InStep m b (Rule.conditional read line) (Rule.conditional read' (m.line line))
      (Node.mapLines m.line) := by
  refine (inStep_header hread).bind fun condition => ?_
  refine (hread (.statements _) trivial).bind fun body => ?_
  exact (hread .otherwise trivial).bind fun _ => inStep_pure rfl rfl

theorem inStep_otherwise :
    InStep m (b + 1) (Rule.otherwise read) (Rule.otherwise read') (mapLinesAll? m.line) := by
  refine .line_bind fun line => .eat_behind rfl ?_ ?_
  · exact (inStep_conditional hread line).bind fun _ => inStep_pure rfl rfl
  · refine (inStep_statementsBehind? hread _ _).bind fun found => ?_
    exact (inStep_expect rfl _).bind fun _ => inStep_pure rfl rfl

theorem inStep_unlessThen (line : Nat) :
    InStep m b (Rule.unlessThen read line) (Rule.unlessThen read' (m.line line))
      (Node.mapLines m.line) := by
  refine (inStep_header hread).bind fun condition => ?_
  refine (hread (.statements _) trivial).bind fun body => ?_
  refine (inStep_statementsBehind? hread _ _).within.bind fun otherwise => ?_
  exact (inStep_expect rfl _).bind fun _ => inStep_pure rfl rfl

/-- The values of a branch are arguments, and its body goes up to the next one. -/
theorem inStep_whenBranch :
    InStep m b (Rule.whenBranch read) (Rule.whenBranch read') (When.mapLines m.line) := by
  refine (hread .argument trivial).bind fun first => ?_
  refine (hread .moreArguments trivial).bind fun others => ?_
  refine inStep_skipTerminators.bind fun _ => (inStep_eat rfl).bind fun _ => ?_
  exact (hread (.statements _) trivial).bind fun _ => inStep_pure rfl rfl

/-- Every branch takes its keyword. -/
theorem inStep_whens :
    InStep m (b + 1) (Rule.whens read) (Rule.whens read') (mapLinesWhens m.line)
      List.length := by
  refine .eat_behind rfl ?_ (inStep_pure rfl rfl)
  refine (inStep_whenBranch hread).bind fun branch => ?_
  exact (hread .whens trivial).map (fun _ => rfl) fun _ => Nat.le_refl _

/-- A choice may have no subject, and its branches come one after another. -/
theorem inStep_caseOf (line : Nat) :
    InStep m b (Rule.caseOf read line) (Rule.caseOf read' (m.line line))
      (Node.mapLines m.line) := by
  refine .current_bind fun here _ _ => ?_
  extract_lets rest rest'
  -- what stands behind the subject
  have hrest : ∀ subject, InStep m b (rest subject) (rest' (mapLines? m.line subject))
      (Node.mapLines m.line) := by
    intro subject
    refine inStep_skipTerminators.bind fun _ => (hread .whens trivial).bind fun branches => ?_
    have hempty : (mapLinesWhens m.line branches).isEmpty = branches.isEmpty := by
      cases branches <;> rfl
    refine .ite_bool hempty (.expected_bind _) ?_
    refine (inStep_statementsBehind? hread _ _).within.bind fun otherwise => ?_
    exact (inStep_expect rfl _).bind fun _ => inStep_pure rfl (Nat.zero_sub _)
  refine .ite_bool (isTerminator_mapLines _ here.token) (hrest none).here ?_
  exact (hread .condition trivial).bind fun subject => hrest (some subject)

theorem inStep_loopHeader :
    InStep m b (Rule.loopHeader read) (Rule.loopHeader read') (Node.mapLines m.line) := by
  refine InStep.bind (InStepAt.leavingDo (hread .condition trivial)) fun found => ?_
  refine (inStep_eat rfl).bind fun _ => ?_
  exact inStep_skipTerminators.bind fun _ => inStep_pure rfl rfl

theorem inStep_loopBody :
    InStep m b (Rule.loopBody read) (Rule.loopBody read') (mapLinesAll m.line) := by
  refine (hread (.statements _) trivial).bind fun body => ?_
  exact (inStep_expect rfl _).bind fun _ => inStep_pure rfl rfl

theorem inStep_loop (negated : Bool) (line : Nat) :
    InStep m b (Rule.loop read negated line) (Rule.loop read' negated (m.line line))
      (Node.mapLines m.line) := by
  refine (inStep_loopHeader hread).bind fun condition => ?_
  exact (inStep_loopBody hread).bind fun _ => inStep_pure rfl rfl

/-- The name of the loop is declared in the scope around it. -/
theorem inStep_forEach (line : Nat) :
    InStep m b (Rule.forEach read line) (Rule.forEach read' (m.line line))
      (Node.mapLines m.line) := by
  refine .line_bind fun binderLine => inStep_takeWord.bind fun name => ?_
  refine (inStep_declare name).bind fun _ => (inStep_expect rfl _).bind fun _ => ?_
  refine (inStep_loopHeader hread).bind fun iterated => ?_
  exact (inStep_loopBody hread).bind fun _ => inStep_pure rfl rfl

/-! ### Definitions -/

omit hread in
/-- The dot behind the current token tells whether an object comes first. -/
theorem inStep_singleton? (line : Nat) :
    InStep m b (Rule.singleton? line) (Rule.singleton? (m.line line)) (mapLines? m.line) := by
  -- the object and its dot are taken if there is one
  have hrest : ∀ found : Option Node, InStep m b (do
        if found.isSome then
          advance
          advance
        return found) (do
        if (mapLines? m.line found).isSome then
          advance
          advance
        return mapLines? m.line found) (mapLines? m.line) := by
    intro found
    have hsome : (mapLines? m.line found).isSome = found.isSome := by cases found <;> rfl
    refine .ite_bool hsome ?_ (inStep_pure rfl rfl)
    exact inStep_advance.bind fun _ => inStep_advance.bind fun _ => inStep_pure rfl rfl
  refine .peek_bind 1 fun behind => .ite_bool ?_ (inStep_pure rfl rfl) ?_
  · exact congrArg (!·) (Token.beq_mapLines rfl _ behind.token)
  · refine .current_bind fun here _ _ => ?_
    obtain ⟨token, tokenLine, spaced⟩ := here
    cases token with
    | const name => exact (hrest (some ⟨.const none name, line⟩)).here
    | word text =>
      dsimp only [Located.mapLines, Token.mapLines]
      split
      · exact (hrest (some ⟨.atom .selfValue, line⟩)).here
      · exact (hrest (some ⟨.const none _, line⟩)).here
      · exact (hrest none).here
    | _ => exact (hrest none).here

omit hread in
/-- A method may be named by an operator, and a setter by a name and a sign. -/
theorem inStep_definedName : InStep m b Rule.definedName Rule.definedName id := by
  refine inStep_next.bind fun token => ?_
  extract_lets rest
  have hrest : ∀ name, InStep m b (rest name) (rest name) id := by
    intro name
    refine .current_bind fun here _ _ => .peek_bind 1 fun behind => ?_
    refine .ite_bool ?_ (inStep_advance.bind fun _ => inStep_pure rfl rfl) (inStep_pure rfl rfl)
    exact congrArg₂ and (congrArg (· && !here.spaced) (Token.beq_mapLines rfl _ here.token))
      (Token.beq_mapLines rfl _ behind.token)
  cases token with
  | word name => exact hrest name
  | const name => exact hrest name
  | op operator => exact hrest operator.text
  | _ => exact .fail_bind Fault.noConfusion

theorem inStep_methodParams :
    InStep m b (Rule.methodParams read) (Rule.methodParams read') (mapLinesParams m.line) := by
  refine .eat_ite rfl (inStep_parenParams hread) (.current_bind fun here _ _ => ?_)
  obtain ⟨token, line, spaced⟩ := here
  cases token with
  | newline | semicolon | done => exact inStep_pure rfl rfl
  | _ => exact (hread (.params .line) trivial).here

/-- The name and the parameters come first, the body is a scope of its own. -/
theorem inStep_method (line : Nat) :
    InStep m b (Rule.method read line) (Rule.method read' (m.line line))
      (Node.mapLines m.line) := by
  refine (inStep_singleton? line).bind fun singleton => inStep_definedName.bind fun name => ?_
  refine InStepAt.withScope true ((inStep_methodParams hread).bind fun params => ?_)
  exact (inStep_bodyToEnd hread).bind fun _ => inStep_pure rfl rfl

omit hread in
theorem inStep_constantName : InStep m b Rule.constantName Rule.constantName id := by
  refine inStep_next.bind fun token => ?_
  cases token with
  | const name => exact inStep_pure rfl rfl
  | _ => exact inStep_fail Fault.noConfusion

theorem inStep_constPath (path : Node) (line : Nat) :
    InStep m (b + 1) (Rule.constPath read path line)
      (Rule.constPath read' (path.mapLines m.line) (m.line line)) (Node.mapLines m.line) := by
  refine .eat_behind rfl (inStep_constantName.bind fun name => ?_) (inStep_pure rfl rfl)
  exact hread (.constPath ⟨.const (some path) name, line⟩ line) trivial

theorem inStep_definedPath :
    InStep m b (Rule.definedPath read) (Rule.definedPath read') (Node.mapLines m.line) := by
  refine .line_bind fun line => inStep_constantName.bind fun name => ?_
  exact hread (.constPath ⟨.const none name, line⟩ line) trivial

/-- A class may name the one it extends. -/
theorem inStep_classDef (line : Nat) :
    InStep m b (Rule.classDef read line) (Rule.classDef read' (m.line line))
      (Node.mapLines m.line) := by
  refine (inStep_definedPath hread).bind fun path =>
    .eat_ite rfl ((hread .expression trivial).bind fun superclass => ?_) ?_
  all_goals
    rw [pure_bind, pure_bind]
    exact InStep.bind (InStepAt.withScope true (inStep_bodyToEnd hread)) fun _ =>
      inStep_pure rfl rfl

theorem inStep_moduleDef (line : Nat) :
    InStep m b (Rule.moduleDef read line) (Rule.moduleDef read' (m.line line))
      (Node.mapLines m.line) := by
  refine (inStep_definedPath hread).bind fun path => ?_
  exact InStep.bind (InStepAt.withScope true (inStep_bodyToEnd hread)) fun _ => inStep_pure rfl rfl

end Rules

end LaneScript
