import LaneScript.Proofs.Fragment
import LaneScript.Proofs.ReadOperations

/-!
# Reading written sequences

`ReadsBy rule closes levels node write` says that the rule reads the node back from the tokens it is
written with, wherever they stand and whatever follows them that `closes` allows, if there is room
for `levels` more levels of nesting.

From the rule for an operand the property passes up to those for expressions, arguments and
statements.  From these it passes to what encloses them: parentheses, lists with commas, the entries
of a hash, and the statements of a body.
-/

namespace LaneScript

open LaneScript.Parser
open List

variable {token : Token} {bound : Nat}

/-! ### How a spelling starts -/

/-- No multiple assignment goes on with these tokens behind its first target. -/
def NoTargets (tokens : List Spelled) : Prop :=
  ∀ p ∈ tokens.head?, p.token ≠ .comma ∧ p.token ≠ .op .assign

@[simp] theorem noTargets_nil : NoTargets [] := by simp [NoTargets]

@[simp] theorem noTargets_cons {p : Spelled} {tokens : List Spelled} :
    NoTargets (p :: tokens) ↔ p.token ≠ .comma ∧ p.token ≠ .op .assign := by
  simp [NoTargets]

/-- A first token of the class, and then tokens that do not depend on what stands before it. -/
def StartsWith (opens : Token → Bool) (write : Lead → List Spelled) : Prop :=
  ∃ token more, opens token = true ∧ NoTargets more ∧ ∀ lead, write lead = ⟨lead, token⟩ :: more

/-- The token can be the first of an expression of the fragment. -/
def Token.opensExpression : Token → Bool
  | .word text => text != "not" && !stopWords.contains text
  | .const _ | .int _ | .str _ | .symbol _ | .lparen | .lbracket | .lbrace => true
  | .op (.binary .sub) | .op (.range _) => true
  | _ => false

/-- The token can be the first of a value of the fragment. -/
def Token.opensValue (token : Token) : Bool := token.opensExpression && token.startsExpression

/-- The token can be the first of an item or an entry. -/
def Token.opensItem (token : Token) : Bool :=
  match token with
  | .label _ => true
  | _ => token.opensExpression

namespace StartsWith

variable {opens others : Token → Bool} {write : Lead → List Spelled}

/-- Fewer tokens allowed is the stronger claim. -/
theorem mono (h : StartsWith opens write) (hopens : ∀ token, opens token → others token) :
    StartsWith others write := by
  obtain ⟨token, more, htoken, hmore, hwrite⟩ := h
  exact ⟨token, more, hopens token htoken, hmore, hwrite⟩

/-- Further tokens behind. -/
theorem append (h : StartsWith opens write) {tokens : List Spelled} (htokens : NoTargets tokens) :
    StartsWith opens fun lead => write lead ++ tokens := by
  obtain ⟨token, more, htoken, hmore, hwrite⟩ := h
  refine ⟨token, more ++ tokens, htoken, ?_, fun lead => congrArg (· ++ tokens) (hwrite lead)⟩
  cases more with
  | nil => exact htokens
  | cons p more => exact hmore

/-- A spelling that starts with none of the two announces no targets. -/
theorem noTargets (h : StartsWith opens write) (hcomma : opens .comma = false)
    (hassign : opens (.op .assign) = false) (lead : Lead) (tokens : List Spelled) :
    NoTargets (write lead ++ tokens) := by
  obtain ⟨token, more, htoken, -, hwrite⟩ := h
  have hne : ∀ other, opens other = false → token ≠ other := by
    rintro other hother rfl
    rw [htoken] at hother
    exact Bool.noConfusion hother
  rw [hwrite, cons_append, noTargets_cons]
  exact ⟨hne _ hcomma, hne _ hassign⟩

/-- A blank before the tokens is one before the first of them. -/
theorem place_blank_append (h : StartsWith opens write) (line : Nat) (spaced : Bool)
    (others : List Spelled) :
    place line spaced (write .blank ++ others) = place line true (write .tight ++ others) := by
  obtain ⟨token, more, -, -, hwrite⟩ := h
  rw [hwrite, hwrite]
  rfl

/-- A blank before the spelling only marks its first token as spaced. -/
theorem place_blank (h : StartsWith opens write) (line : Nat) (spaced : Bool) :
    place line spaced (write .blank) = place line true (write .tight) := by
  have hplace := h.place_blank_append line spaced []
  rwa [append_nil, append_nil] at hplace

/-- A line end before the tokens is a token of its own. -/
theorem place_newLine_append (h : StartsWith opens write) (line indent : Nat) (spaced : Bool)
    (others : List Spelled) :
    place line spaced (write (.newLine indent) ++ others) =
      ⟨.newline, line, spaced⟩ :: place (line + 1) true (write .tight ++ others) := by
  obtain ⟨token, more, -, -, hwrite⟩ := h
  rw [hwrite, hwrite]
  rfl

/-- The first located token of a spelling, on the line where it starts. -/
theorem exists_place (h : StartsWith opens write) (line : Nat) (spaced : Bool) :
    ∃ token more, opens token = true ∧
      place line spaced (write .tight) = ⟨token, line, spaced⟩ :: more := by
  obtain ⟨token, more, htoken, -, hwrite⟩ := h
  exact ⟨token, place line false more, htoken, by rw [hwrite]; rfl⟩

/-- A spelling has a token. -/
theorem ne_nil (h : StartsWith opens write) (line : Nat) (spaced : Bool) :
    place line spaced (write .tight) ≠ [] := by
  obtain ⟨token, more, -, hplace⟩ := h.exists_place line spaced
  rw [hplace]
  exact cons_ne_nil _ _

/-- Tokens behind others, of which there are some. -/
theorem place_append (h : StartsWith opens write) (line : Nat) (spaced : Bool)
    (others : List Spelled) :
    place line spaced (write .tight ++ others) =
      place line spaced (write .tight) ++
        place (line + spelledLines (write .tight)) false others := by
  obtain ⟨token, more, -, -, hwrite⟩ := h
  rw [LaneScript.place_append, hwrite, isEmpty_cons, Bool.and_false]

/-- Two spellings with a token between blanks. -/
theorem place_infix (h : StartsWith opens write) {write' : Lead → List Spelled}
    (h' : StartsWith others write') (token : Token) (line : Nat) (spaced : Bool) :
    place line spaced (write .tight ++ ⟨.blank, token⟩ :: write' .blank) =
      place line spaced (write .tight) ++
        ⟨token, line + spelledLines (write .tight), true⟩ ::
          place (line + spelledLines (write .tight)) true (write' .tight) := by
  rw [h.place_append, ← h'.place_blank _ false]
  rfl

end StartsWith

/-! ### The first token of an expression -/

/-- A token of a class is none that is not of it. -/
theorem Token.ne_of_class {opens : Token → Bool} {token other : Token} (h : opens token = true)
    (hother : opens other = false) : token ≠ other := by
  rintro rfl
  rw [h] at hother
  exact Bool.noConfusion hother

section OpensExpression

variable {token : Token}

/-- Every expression can be an item. -/
theorem Token.opensItem_of_opensExpression (h : token.opensExpression = true) :
    token.opensItem = true := by
  unfold opensItem
  split
  · rfl
  · exact h

/-- Every expression can be an operand. -/
theorem Token.opensOperand_of_opensExpression (h : token.opensExpression = true) :
    token.opensOperand = true := by
  simp only [opensOperand, Bool.and_eq_true, bne_iff_ne]
  exact ⟨⟨ne_of_class h rfl, ne_of_class h rfl⟩, ne_of_class h rfl⟩

/-- No expression starts with a line end or a semicolon. -/
theorem isTerminator_of_opensExpression (h : token.opensExpression = true) :
    isTerminator token = false := by
  simp only [isTerminator, Bool.or_eq_false_iff, beq_eq_false_iff_ne]
  exact ⟨Token.ne_of_class h rfl, Token.ne_of_class h rfl⟩

/-- No expression starts with a word that ends the statements. -/
theorem endsStatements_of_opensExpression (h : token.opensExpression = true) {stops : List String}
    (hstops : stops ⊆ stopWords) : Rule.endsStatements stops token = false := by
  cases token with
  -- A word could end the statements, but all such words are among the stop words.
  | word text =>
    simp only [Token.opensExpression, Bool.and_eq_true, Bool.not_eq_true'] at h
    rw [Rule.endsStatements, contains_eq_mem, decide_eq_false_iff_not]
    intro hmem
    have hstop : stopWords.contains text = true := contains_iff_mem.2 (hstops hmem)
    rw [h.2] at hstop
    exact Bool.noConfusion hstop
  | done | rbrace | rparen => exact Bool.noConfusion h
  | _ => rfl

end OpensExpression

/-! ### Reading back -/

/-- The token can stand behind an operand of the levels. -/
def Token.closesOperand (token : Token) : Bool := token.closesValue && token != .op (.binary .pow)

/-- The token can stand behind an item of a list. -/
def Token.closesItem : Token → Bool
  | .comma | .rparen | .rbracket | .rbrace => true
  | _ => false

/-- The token can stand behind a statement. -/
def Token.closesStatement : Token → Bool
  | .newline | .done | .rparen => true
  | _ => false

/-- What ends an expression is no operator. -/
theorem Token.closesOperand_of_closesExpression (h : token.closesExpression = true) :
    token.closesOperand = true := by
  cases token with
  | comma | rparen | rbracket | rbrace | arrow | newline | done => rfl
  | op operator => rw [eq_colon_of_closesExpression h]; rfl
  | _ => exact Bool.noConfusion h

/-- What ends an item ends the expression in it. -/
theorem Token.closesExpression_of_closesItem (h : token.closesItem = true) :
    token.closesExpression = true := by
  cases token with
  | comma | rparen | rbracket | rbrace => rfl
  | _ => exact Bool.noConfusion h

/-- What ends a statement ends the expression it is. -/
theorem Token.closesExpression_of_closesStatement (h : token.closesStatement = true) :
    token.closesExpression = true := by
  cases token with
  | newline | done | rparen => rfl
  | _ => exact Bool.noConfusion h

/-- The rule reads the node from its tokens: they may stand anywhere, with any token of the class
behind them that ends a value, in any calm state that has room for so many levels. -/
def ReadsBy (rule : Reader → Parser Node) (closes : Token → Bool) (levels : Nat) (node : Node)
    (write : Lead → List Spelled) : Prop :=
  ∀ ⦃s : State⦄, s.Calm → s.depth + levels ≤ maxNesting → ∀ (line : Nat) (spaced : Bool)
    ⦃here : Located⦄ ⦃ahead : List Located⦄, closes here.token = true → Closes here ahead →
    ∀ bound, (place line spaced (write .tight) ++ here :: ahead).length ≤ bound →
      Reads (rule (readAt bound)) s (place line spaced (write .tight)) (here :: ahead) node

namespace ReadsBy

variable {rule : Reader → Parser Node} {closes : Token → Bool} {levels : Nat} {node : Node}
  {write : Lead → List Spelled}

/-- More levels may be left for it than it needs. -/
theorem mono (h : ReadsBy rule closes levels node write) {levels' : Nat}
    (hlevels : levels ≤ levels') : ReadsBy rule closes levels' node write := by
  intro s hs hdepth
  exact h hs (by omega)

/-- No prefix operator stands before a primary. -/
theorem unary (h : ReadsBy Rule.primary Token.closesValue levels node write)
    (hstart : StartsWith Token.opensExpression write) :
    ReadsBy Rule.unary Token.closesValue levels node write := by
  intro s hs hdepth line spaced here ahead hhere hcloses bound hbound
  have hoperand := yields_operand (h hs hdepth line spaced hhere hcloses bound hbound) hcloses
    (hstart.ne_nil line spaced) hbound
  obtain ⟨token, more, htoken, hplace⟩ := hstart.exists_place line spaced
  rw [hplace] at hoperand ⊢
  exact yields_unary hoperand (Token.opensOperand_of_opensExpression htoken)

/-- Without a minus sign in front the value is not negated. -/
theorem signed (h : ReadsBy Rule.unary Token.closesValue levels node write)
    (hstart : StartsWith (· != .op (.binary .sub)) write) :
    ReadsBy Rule.signed Token.closesOperand levels node write := by
  intro s hs hdepth line spaced here ahead hhere hcloses bound hbound
  have hunary := h hs hdepth line spaced hcloses.token hcloses bound hbound
  obtain ⟨token, more, htoken, hplace⟩ := hstart.exists_place line spaced
  rw [hplace] at hunary ⊢
  exact yields_signed hunary (bne_iff_ne.1 htoken) (Token.ne_of_class hhere rfl)

/-- No operator of any level follows, and no question mark. -/
theorem ternary (h : ReadsBy Rule.signed Token.closesOperand levels node write)
    (hstart : StartsWith Token.opensExpression write) :
    ReadsBy Rule.ternary Token.closesExpression levels node write := by
  intro s hs hdepth line spaced here ahead hhere hcloses bound hbound
  have hsigned := h hs hdepth line spaced (Token.closesOperand_of_closesExpression hhere) hcloses
    bound hbound
  exact yields_ternary_of_signed hsigned (hstart.ne_nil line spaced) hbound hhere

/-- An expression is a ternary, one level of nesting further in. -/
theorem expression (h : ReadsBy Rule.ternary Token.closesExpression levels node write) :
    ReadsBy Rule.expression Token.closesExpression (levels + 1) node write := by
  intro s hs hdepth line spaced here ahead hhere hcloses bound hbound
  refine yields_expression (by omega) ?_ hhere
  exact h hs.deeper (by show s.depth + 1 + levels ≤ _; omega) line spaced hhere hcloses bound hbound

/-- The value of an argument is an expression without a `not` before it. -/
theorem argumentValue (h : ReadsBy Rule.expression Token.closesExpression levels node write)
    (hstart : StartsWith Token.opensExpression write) :
    ReadsBy Rule.argumentValue Token.closesExpression levels node write := by
  intro s hs hdepth line spaced here ahead hhere hcloses bound hbound
  have hexpression := h hs hdepth line spaced hhere hcloses bound hbound
  obtain ⟨token, more, htoken, hplace⟩ := hstart.exists_place line spaced
  have hnot : (token == .word "not") = false :=
    beq_eq_false_iff_ne.2 (Token.ne_of_class htoken (by decide))
  rw [hplace] at hexpression ⊢
  refine hexpression.of_run_eq ?_
  rw [Rule.argumentValue, cons_append, run_isAt_bind, hnot]
  rfl

/-- Where a rule asks for a part with fewer requests left. -/
theorem inside {item : Reader → Parser Node}
    (h : ReadsBy (fun read => item (Rule.of read)) closes levels node write) {s : State}
    (hs : s.Calm) (hdepth : s.depth + levels ≤ maxNesting) (line : Nat) (spaced : Bool)
    {here : Located} {ahead : List Located} (hhere : closes here.token = true)
    (hcloses : Closes here ahead)
    (hbound : (place line spaced (write .tight) ++ here :: ahead).length < bound) :
    Reads (item (readAt bound)) s (place line spaced (write .tight)) (here :: ahead) node := by
  cases bound with
  | zero => exact absurd hbound (Nat.not_lt_zero _)
  | succ bound => exact h hs hdepth line spaced hhere hcloses bound (Nat.le_of_lt_succ hbound)

/-- More requests do no harm. -/
theorem above (h : ReadsBy rule closes levels node write) :
    ReadsBy (fun read => rule (Rule.of read)) closes levels node write := by
  intro s hs hdepth line spaced here ahead hhere hcloses bound hbound
  exact h hs hdepth line spaced hhere hcloses (bound + 1) (Nat.le_succ_of_le hbound)

end ReadsBy

/-- The tokens before which a value always ends. -/
theorem closes_of_closesExpression {here : Located} (ahead : List Located)
    (h : here.token.closesExpression = true) (hnewline : here.token ≠ .newline) :
    Closes here ahead := by
  refine closes_of_ne_newline ?_ hnewline ?_
  · have hoperand := Token.closesOperand_of_closesExpression h
    rw [Token.closesOperand, Bool.and_eq_true] at hoperand
    exact hoperand.1
  · obtain ⟨token, line, spaced⟩ := here
    cases token with
    | comma | rparen | rbracket | rbrace | arrow | newline | done => rfl
    | op operator =>
      obtain rfl := eq_colon_of_closesExpression h
      rfl
    | _ => exact Bool.noConfusion h

/-! ### Lists -/

/-- Further items of a list, each behind a comma: what the rules for items and entries share. -/
def Rule.moreOf (close : Token) (item : Parser Node) (more : Parser (List Node)) :
    Parser (List Node) := do
  skipNewlines
  if ← eat .comma then
    skipNewlines
    if ← isAt close then return []
    let found ← item
    return found :: (← more)
  else return []

/-- A list up to its closing token and with it. -/
def Rule.listOf (close : Token) (closeText : String) (item : Parser Node)
    (more : Parser (List Node)) (finish : List Node → List Node) : Parser (List Node) :=
  allowingDo do
    skipNewlines
    let found ←
      if ← isAt close then pure []
      else do
        let first ← item
        pure (first :: (← more))
    expect close closeText
    return finish found

/-- The items behind a comma, as a list of arguments. -/
theorem moreItems_eq_moreOf (read : Reader) (close : Token) :
    Rule.moreItems read close =
      Rule.moreOf close (read .argument) (read (.moreItems close)) := rfl

/-- The entries behind a comma, as a list of entries. -/
theorem moreEntries_eq_moreOf (read : Reader) :
    Rule.moreEntries read = Rule.moreOf .rbrace (Rule.entry read) (read .moreEntries) := rfl

/-- Items are arguments, and the keywords among them make a hash. -/
theorem items_eq_listOf (read : Reader) (close : Token) (closeText : String) :
    Rule.items read close closeText =
      Rule.listOf close closeText (read .argument) (read (.moreItems close)) groupKeywords := rfl

/-- Entries are left as they are read. -/
theorem entries_eq_listOf (read : Reader) :
    Rule.entries read =
      Rule.listOf .rbrace "\x7d" (Rule.entry read) (read .moreEntries) id := rfl

section Lists

variable {item : Reader → Parser Node} {more : Nat → Parser (List Node)} {close : Token}
  {indent levels : Nat} {nodes : List Node} {s : State} {last : Located} {ahead : List Located}

/-- The node can stand in a list whose items are read by the rule. -/
structure IsItem (item : Reader → Parser Node) (indent levels : Nat) (node : Node) : Prop where
  starts : StartsWith Token.opensItem (node.spelled indent)
  reads : ReadsBy (fun read => item (Rule.of read)) Token.closesItem levels node
    (node.spelled indent)

theorem bareAll_cons (node : Node) (nodes : List Node) :
    bareAll (node :: nodes) = node.bare :: bareAll nodes := rfl

/-- Behind an item stands a comma or the closing token. -/
theorem exists_place_spelledMore (indent : Nat) (nodes : List Node) (ahead : List Located)
    (line : Nat) (spaced : Bool) (hlast : last.token.closesItem = true) :
    ∃ here behind, here.token.closesItem = true ∧
      place line spaced (spelledMore indent nodes) ++ last :: ahead = here :: behind := by
  cases nodes with
  | nil => exact ⟨last, ahead, hlast, rfl⟩
  | cons node nodes => exact ⟨⟨.comma, line, spaced⟩, _, rfl, rfl⟩

theorem ne_newline_of_closesItem (h : token.closesItem = true) : token ≠ .newline :=
  Token.ne_of_class h rfl

theorem opensItem_of_closesItem (h : token.closesItem = true) : token.opensItem = false := by
  cases token with
  | comma | rparen | rbracket | rbrace => rfl
  | _ => exact Bool.noConfusion h

/-- Behind an item no newline is skipped. -/
theorem closes_of_closesItem {here : Located} (ahead : List Located)
    (h : here.token.closesItem = true) : Closes here ahead :=
  closes_of_closesExpression ahead (Token.closesExpression_of_closesItem h)
    (ne_newline_of_closesItem h)

/-- An item and what follows it in a list. -/
theorem yields_item_more {node : Node} {tail : Parser (List Node)}
    (hnode : IsItem item indent levels node) (hs : s.Calm) (hdepth : s.depth + levels ≤ maxNesting)
    (hlast : last.token.closesItem = true) (line : Nat) (spaced : Bool)
    (hbound : (place line spaced (node.spelled indent .tight ++ spelledMore indent nodes) ++
      last :: ahead).length < bound)
    (htail : ∀ line, (place line false (spelledMore indent nodes) ++ last :: ahead).length < bound →
      ReadsAll tail s (place line false (spelledMore indent nodes)) (last :: ahead) nodes) :
    ReadsAll (do return (← item (readAt bound)) :: (← tail)) s
      (place line spaced (node.spelled indent .tight ++ spelledMore indent nodes)) (last :: ahead)
      (node :: nodes) := by
  rw [hnode.starts.place_append, List.append_assoc] at hbound
  rw [hnode.starts.place_append]
  obtain ⟨here, behind, hhere, hmore⟩ := exists_place_spelledMore indent nodes ahead
    (line + spelledLines (node.spelled indent .tight)) false hlast
  have hshort := htail (line + spelledLines (node.spelled indent .tight)) (by
    rw [length_append] at hbound
    omega)
  -- The item is read in front of the comma or the closing token, whichever comes.
  rw [hmore] at hbound
  have hitem := hnode.reads.inside hs hdepth line spaced hhere (closes_of_closesItem behind hhere)
    hbound
  rw [← hmore] at hitem
  refine hitem.bind fun found hfound => hshort.bind_left fun others hothers => yields_pure ?_
  rw [bareAll_cons, bareAll_cons, hfound, hothers]

/-- Further items are read one by one. -/
theorem readsAll_more
    (hmore : ∀ bound, more (bound + 1) = Rule.moreOf close (item (readAt bound)) (more bound))
    (hnodes : ∀ node ∈ nodes, IsItem item indent levels node) (hs : s.Calm)
    (hdepth : s.depth + levels ≤ maxNesting) (hlast : last.token = close)
    (hclose : close.closesItem = true) (hcomma : close ≠ .comma) (line : Nat) (spaced : Bool)
    (hbound : (place line spaced (spelledMore indent nodes) ++ last :: ahead).length < bound) :
    ReadsAll (more bound) s (place line spaced (spelledMore indent nodes)) (last :: ahead)
      nodes := by
  induction nodes generalizing line spaced bound with
  | nil =>
    cases bound with
    | zero => exact absurd hbound (Nat.not_lt_zero _)
    | succ bound =>
      have hnewline : last.token ≠ .newline := ne_newline_of_closesItem (hlast ▸ hclose)
      refine ⟨[], ?_, rfl⟩
      rw [hmore, Rule.moreOf]
      show Parser.run (skipNewlines >>= _) (s.at (last :: ahead)) = _
      rw [run_skipNewlines_bind hnewline, run_eat_bind_of_ne (hlast ▸ hcomma)]
      rfl
  | cons node nodes ih =>
    obtain ⟨hnode, hnodes⟩ := forall_mem_cons.1 hnodes
    cases bound with
    | zero => exact absurd hbound (Nat.not_lt_zero _)
    | succ bound =>
      -- A comma, and behind it a list that starts with the item.
      have hplace : place line spaced (spelledMore indent (node :: nodes)) =
          ⟨.comma, line, spaced⟩ ::
            place line true (node.spelled indent .tight ++ spelledMore indent nodes) := by
        rw [← hnode.starts.place_blank_append line false]
        rfl
      rw [hplace] at hbound ⊢
      have hfound := yields_item_more hnode hs hdepth (hlast ▸ hclose) line true
        (Nat.lt_of_succ_lt_succ hbound) fun line hshort => ih hnodes line false hshort
      obtain ⟨token, others, htoken, hstart⟩ := hnode.starts.exists_place line true
      -- Behind the comma the rule passes over line ends and looks for the closing token.
      have hnewline : token ≠ .newline := Token.ne_of_class htoken rfl
      have hat : (token == close) = false :=
        beq_eq_false_iff_ne.2 (Token.ne_of_class htoken (opensItem_of_closesItem hclose))
      rw [hnode.starts.place_append, hstart] at hfound ⊢
      obtain ⟨found, hrun, hbare⟩ := hfound
      refine ⟨found, ?_, hbare⟩
      rw [hmore, Rule.moreOf, cons_append, run_skipNewlines_bind (by simp),
        run_eat_bind_of_eq (show (Located.mk .comma line spaced).token = .comma from rfl) (by simp)]
      show Parser.run (skipNewlines >>= _) _ = _
      rw [cons_append, cons_append, run_skipNewlines_bind hnewline, run_isAt_bind, hat]
      exact hrun

/-- A list with its closing token. -/
theorem yields_listOf (item : Reader → Parser Node) (more : Nat → Parser (List Node))
    (finish : List Node → List Node) (closeText : String)
    (hmore : ∀ bound, more (bound + 1) = Rule.moreOf close (item (readAt bound)) (more bound))
    (hnodes : ∀ node ∈ nodes, IsItem item indent levels node) (hs : s.Calm)
    (hdepth : s.depth + levels ≤ maxNesting) (hlast : last.token = close)
    (hclose : close.closesItem = true) (hcomma : close ≠ .comma) (hahead : ahead ≠ []) (line : Nat)
    (spaced : Bool)
    (hbound : (place line spaced (spelledList indent nodes .tight) ++ last :: ahead).length <
      bound) :
    Yields (Rule.listOf close closeText (item (readAt bound)) (more bound) finish) s
      (place line spaced (spelledList indent nodes .tight) ++ [last]) ahead
      fun found => ∃ others, bareAll others = bareAll nodes ∧ found = finish others := by
  refine Yields.allowingDo hs.claims ?_
  cases nodes with
  | nil =>
    refine ⟨finish [], ?_, [], rfl, rfl⟩
    have hnewline : last.token ≠ .newline := ne_newline_of_closesItem (hlast ▸ hclose)
    have hat : (last.token == close) = true := beq_iff_eq.2 hlast
    show Parser.run (skipNewlines >>= _) (s.at (last :: ahead)) = _
    rw [run_skipNewlines_bind hnewline, run_isAt_bind, hat]
    simp only [if_true, pure_bind]
    rw [run_expect_bind closeText hlast hahead]
    rfl
  | cons node nodes =>
    obtain ⟨hnode, hnodes⟩ := forall_mem_cons.1 hnodes
    have hfound := yields_item_more hnode hs hdepth (hlast ▸ hclose) line spaced hbound
      fun line hshort => readsAll_more hmore hnodes hs hdepth hlast hclose hcomma line false hshort
    obtain ⟨token, others, htoken, hstart⟩ := hnode.starts.exists_place line spaced
    have hnewline : token ≠ .newline := Token.ne_of_class htoken rfl
    have hat : (token == close) = false :=
      beq_eq_false_iff_ne.2 (Token.ne_of_class htoken (opensItem_of_closesItem hclose))
    obtain ⟨found, hrun, hbare⟩ := hfound
    refine ⟨finish found, ?_, found, hbare, rfl⟩
    rw [spelledList, List.append_assoc]
    rw [hnode.starts.place_append, hstart] at hrun ⊢
    rw [cons_append, cons_append] at hrun ⊢
    -- The run of the items and what the rule does with them, brought into the rule's own shape.
    have hlisted := run_bind_ok hrun fun found => do
      expect close closeText
      return finish found
    rw [run_expect_bind closeText hlast hahead] at hlisted
    simp only [bind_assoc, pure_bind] at hlisted
    rw [run_skipNewlines_bind hnewline, run_isAt_bind, hat]
    exact hlisted

end Lists

/-! ### Items and entries -/

/-- Pairs are the same but for their lines if their parts are. -/
theorem Node.bare_pair {key key' value value' : Node} (line line' : Nat)
    (hkey : key.bare = key'.bare) (hvalue : value.bare = value'.bare) :
    (Node.pair key value line).bare = (Node.mk (.pair key' value') line').bare := by
  unfold Node.bare at *
  simp only [Node.pair, Node.mapLines, Form.mapLines, hkey, hvalue]

/-- The value behind a key, and the pair of the two. -/
def Rule.pairWith (read : Reader) (line : Nat) (key : Node) : Parser Node := do
  skipNewlines
  let value ← read .argumentValue
  return .pair key value line

/-- What the rule for an argument does behind its value. -/
def Rule.pairBehind (read : Reader) (line : Nat) (value : Node) : Parser Node := do
  if ← eat .arrow then pairWith read line value else return value

/-- What the rule for an entry does behind a key that is no label. -/
def Rule.mappedPair (read : Reader) (line : Nat) (key : Node) : Parser Node := do
  skipNewlines
  expect .arrow "=>"
  pairWith read line key

/-- What both rules do at a label. -/
def Rule.labelledPair (read : Reader) (key : String) (line : Nat) : Parser Node := do
  advance
  pairWith read line ⟨.sym key, line⟩

section Items

variable {s : State} {first here : Located} {ahead tokens : List Located} {bound levels : Nat}
  {key value : Node} {write write' : Lead → List Spelled}

/-- An argument that does not start with a label, a splat or a block is a value, or a pair of it. -/
theorem run_argument (read : Reader) (h : first.token.opensExpression = true) :
    (Rule.argument read).run (s.at (first :: tokens)) =
      (Rule.argumentValue read >>= Rule.pairBehind read first.line).run
        (s.at (first :: tokens)) := by
  -- Three operators are asked for first: of a splat, of a double splat, and of a block.
  rw [Rule.argument, run_current_bind, eatOp, run_eat_bind_of_ne (Token.ne_of_class h rfl)]
  simp only [Bool.false_eq_true, if_false]
  rw [eatOp, run_eat_bind_of_ne (Token.ne_of_class h rfl)]
  simp only [Bool.false_eq_true, if_false]
  rw [eatOp, run_eat_bind_of_ne (Token.ne_of_class h rfl)]
  simp only [Bool.false_eq_true, if_false]
  split
  case h_1 key htoken =>
    rw [htoken] at h
    exact Bool.noConfusion h
  case h_2 => rfl

/-- An argument with a label is a pair. -/
theorem run_argument_label (read : Reader) {key : String} (h : first.token = .label key) :
    (Rule.argument read).run (s.at (first :: tokens)) =
      (Rule.labelledPair read key first.line).run (s.at (first :: tokens)) := by
  rw [Rule.argument, run_current_bind, eatOp, run_eat_bind_of_ne (by simp [h])]
  simp only [Bool.false_eq_true, if_false]
  rw [eatOp, run_eat_bind_of_ne (by simp [h])]
  simp only [Bool.false_eq_true, if_false]
  rw [eatOp, run_eat_bind_of_ne (by simp [h]), h]
  rfl

/-- An entry with a label is a pair. -/
theorem run_entry_label (read : Reader) {key : String} (h : first.token = .label key) :
    (Rule.entry read).run (s.at (first :: tokens)) =
      (Rule.labelledPair read key first.line).run (s.at (first :: tokens)) := by
  rw [Rule.entry, run_current_bind, h]
  rfl

/-- An argument that is a value. -/
theorem ReadsBy.argument (h : ReadsBy Rule.argumentValue Token.closesExpression levels value write)
    (hstart : StartsWith Token.opensExpression write) :
    ReadsBy Rule.argument Token.closesItem levels value write := by
  intro s hs hdepth line spaced here ahead hhere hcloses bound hbound
  have hvalue := h hs hdepth line spaced (Token.closesExpression_of_closesItem hhere) hcloses bound
    hbound
  obtain ⟨token, more, htoken, hplace⟩ := hstart.exists_place line spaced
  have harrow : here.token ≠ .arrow := Token.ne_of_class hhere rfl
  -- No arrow follows, so the value is the argument.
  have halone : Yields
      (Rule.argumentValue (readAt bound) >>= Rule.pairBehind (readAt bound) line) s
      (place line spaced (write .tight)) (here :: ahead) fun found => found.bare = value.bare := by
    refine hvalue.bind_left fun found hfound => ⟨found, ?_, hfound⟩
    rw [nil_append, Rule.pairBehind, run_eat_bind_of_ne harrow]
    rfl
  rw [hplace] at halone ⊢
  exact halone.of_run_eq (run_argument _ htoken)

/-- An entry without a label has a key, and its value behind an arrow. -/
theorem run_entry (read : Reader) (h : first.token.opensExpression = true) :
    (Rule.entry read).run (s.at (first :: tokens)) =
      (read .ternary >>= Rule.mappedPair read first.line).run (s.at (first :: tokens)) := by
  rw [Rule.entry, run_current_bind]
  split
  case h_1 key htoken =>
    rw [htoken] at h
    exact Bool.noConfusion h
  case h_2 =>
    rw [eatOp, run_eat_bind_of_ne (Token.ne_of_class h rfl)]
    rfl

/-- The value behind a key. -/
theorem reads_pairWith {found : Node} (hfound : found.bare = key.bare)
    (hvalue : ReadsBy Rule.argumentValue Token.closesExpression levels value write')
    (hstart : StartsWith Token.opensExpression write') (hs : s.Calm)
    (hdepth : s.depth + levels ≤ maxNesting) (hhere : here.token.closesItem = true)
    (line line' pairLine : Nat) (spaced : Bool)
    (hbound : (place line spaced (write' .tight) ++ here :: ahead).length < bound) :
    Reads (Rule.pairWith (readAt bound) line' found) s (place line spaced (write' .tight))
      (here :: ahead) ⟨.pair key value, pairLine⟩ := by
  have hread : Reads (readAt bound .argumentValue) s (place line spaced (write' .tight))
      (here :: ahead) value :=
    yields_readAt (hvalue hs hdepth line spaced (Token.closesExpression_of_closesItem hhere)
      (closes_of_closesItem ahead hhere)) hbound
  have hpair : Reads (do return .pair found (← readAt bound .argumentValue) line') s
      (place line spaced (write' .tight)) (here :: ahead) ⟨.pair key value, pairLine⟩ :=
    hread.bind_left fun value' hvalue' =>
      yields_pure (Node.bare_pair line' pairLine hfound hvalue')
  -- no line end stands before the value
  refine hpair.of_run_eq ?_
  obtain ⟨token, more, htoken, hplace⟩ := hstart.exists_place line spaced
  rw [hplace, cons_append, Rule.pairWith, run_skipNewlines_bind (Token.ne_of_class htoken rfl)]

section Pairs

variable (hvalue : ReadsBy Rule.argumentValue Token.closesExpression levels value write')
  (hstart' : StartsWith Token.opensExpression write')

include hvalue hstart'

/-- A pair with a label, read by either rule. -/
theorem readsBy_labelledPair {rule : Reader → Parser Node} {name : String}
    (hrule : ∀ (read : Reader) (s : State) (first : Located) (tokens : List Located),
      first.token = .label name → (rule read).run (s.at (first :: tokens)) =
        (Rule.labelledPair read name first.line).run (s.at (first :: tokens)))
    (symLine pairLine : Nat) :
    ReadsBy rule Token.closesItem levels ⟨.pair ⟨.sym name, symLine⟩ value, pairLine⟩
      fun lead => ⟨lead, .label name⟩ :: write' .blank := by
  intro s hs hdepth line spaced here ahead hhere hcloses bound hbound
  have hplace : place line spaced (⟨.tight, .label name⟩ :: write' .blank) =
      ⟨.label name, line, spaced⟩ :: place line true (write' .tight) := by
    rw [← hstart'.place_blank line false]
    rfl
  have hkey : (Node.mk (.sym name) line).bare = (Node.mk (.sym name) symLine).bare := rfl
  -- the label is taken, and the value is that of a pair with a key
  rw [hplace] at hbound ⊢
  exact Yields.of_run_eq (hrule _ _ _ _ rfl) (Yields.advance (by simp)
    (reads_pairWith hkey hvalue hstart' hs hdepth hhere line line pairLine true
      (Nat.lt_of_succ_le hbound)))

/-- A pair with an arrow.  The rules for arguments and for entries differ in the rule for the key,
in how they come to the arrow behind it, and in how many requests deep they read the value. -/
theorem readsBy_mappedPair {rule keyRule : Reader → Parser Node}
    {behind : Reader → Nat → Node → Parser Node} (deeper : Nat)
    (hrule : ∀ (read : Reader) (s : State) (first : Located) (tokens : List Located),
      first.token.opensExpression = true → (rule read).run (s.at (first :: tokens)) =
        (keyRule read >>= behind read first.line).run (s.at (first :: tokens)))
    (hbehind : ∀ (bound line : Nat) (found : Node) {s : State} {arrow : Located}
      {tokens rest : List Located} {Q : Node → Prop}, arrow.token = .arrow → tokens ++ rest ≠ [] →
      Yields (Rule.pairWith (readAt (bound + deeper)) line found) s tokens rest Q →
        Yields (behind (readAt bound) line found) s (arrow :: tokens) rest Q)
    (hkey : ReadsBy keyRule Token.closesExpression levels key write)
    (hstart : StartsWith Token.opensExpression write) (pairLine : Nat) :
    ReadsBy rule Token.closesItem levels ⟨.pair key value, pairLine⟩
      fun lead => write lead ++ ⟨.blank, .arrow⟩ :: write' .blank := by
  intro s hs hdepth line spaced here ahead hhere hcloses bound hbound
  rw [hstart.place_infix hstart', List.append_assoc] at hbound
  rw [hstart.place_infix hstart']
  have hshort : (place (line + spelledLines (write .tight)) true (write' .tight) ++
      here :: ahead).length < bound + deeper := by
    simp only [length_append, length_cons] at hbound ⊢
    omega
  have hread := hkey hs hdepth line spaced rfl (closes_of_closesExpression _ rfl (by simp)) bound
    hbound
  -- the arrow closes the key, and the value is read behind it
  have hpair : Reads (keyRule (readAt bound) >>= behind (readAt bound) line) s
      (place line spaced (write .tight) ++ ⟨.arrow, line + spelledLines (write .tight), true⟩ ::
        place (line + spelledLines (write .tight)) true (write' .tight)) (here :: ahead)
      ⟨.pair key value, pairLine⟩ := by
    refine Yields.bind hread fun found hfound => hbehind bound line found rfl (by simp) ?_
    exact reads_pairWith hfound hvalue hstart' hs hdepth hhere _ line pairLine true hshort
  obtain ⟨token, more, htoken, hplace⟩ := hstart.exists_place line spaced
  rw [hplace] at hpair ⊢
  exact hpair.of_run_eq (hrule _ _ _ _ htoken)

/-- A pair with an arrow among arguments. -/
theorem ReadsBy.mappedArgument
    (hkey : ReadsBy Rule.argumentValue Token.closesExpression levels key write)
    (hstart : StartsWith Token.opensExpression write) (pairLine : Nat) :
    ReadsBy Rule.argument Token.closesItem levels ⟨.pair key value, pairLine⟩
      fun lead => write lead ++ ⟨.blank, .arrow⟩ :: write' .blank := by
  refine readsBy_mappedPair hvalue hstart' 0 (fun read _ _ _ htoken => run_argument read htoken)
    (fun bound line found s arrow tokens rest Q harrow hne hvalue => ?_) hkey hstart pairLine
  exact Yields.eat harrow hne hvalue

/-- A pair with an arrow among the entries of a hash. -/
theorem ReadsBy.mappedEntry (hkey : ReadsBy Rule.ternary Token.closesExpression levels key write)
    (hstart : StartsWith Token.opensExpression write) (pairLine : Nat) :
    ReadsBy (fun read => Rule.entry (Rule.of read)) Token.closesItem levels
      ⟨.pair key value, pairLine⟩ fun lead => write lead ++ ⟨.blank, .arrow⟩ :: write' .blank := by
  refine readsBy_mappedPair hvalue hstart' 1 (fun read _ _ _ htoken => run_entry _ htoken)
    (fun bound line found s arrow tokens rest Q harrow hne hvalue => ?_) hkey hstart pairLine
  exact Yields.of_run_eq (run_skipNewlines_bind (by simp [harrow]) _)
    (Yields.expect harrow hne hvalue)

end Pairs

end Items

/-! ### Statements -/

/-- A second token that is neither a comma nor `=` announces no targets. -/
theorem announcesTargets_eq_false {first second : Located} {tokens : List Located}
    (hfirst : first.token ≠ .op (.binary .mul))
    (hsecond : second.token ≠ .comma ∧ second.token ≠ .op .assign) :
    announcesTargets false (first :: second :: tokens) = false := by
  obtain ⟨firstToken, firstLine, firstSpaced⟩ := first
  obtain ⟨secondToken, secondLine, secondSpaced⟩ := second
  unfold announcesTargets
  split <;> simp_all

section Statements

variable {s : State} {here : Located} {ahead : List Located} {bound levels : Nat} {node : Node}
  {write : Lead → List Spelled} {Q : Node → Prop}

/-- An expression alone on its line is no multiple assignment. -/
theorem StartsWith.announcesTargets_eq_false (h : StartsWith Token.opensExpression write)
    (line : Nat) (spaced : Bool) (ahead : List Located)
    (hhere : here.token.closesStatement = true) :
    announcesTargets false (place line spaced (write .tight) ++ here :: ahead) = false := by
  obtain ⟨token, more, htoken, hmore, hwrite⟩ := h
  have hfirst : (Located.mk token line spaced).token ≠ .op (.binary .mul) :=
    Token.ne_of_class htoken rfl
  -- The second token is one of the node, or, behind a node of one token, what closes it.
  rw [hwrite]
  cases more with
  | nil =>
    exact LaneScript.announcesTargets_eq_false hfirst
      ⟨Token.ne_of_class hhere rfl, Token.ne_of_class hhere rfl⟩
  | cons p more =>
    obtain ⟨lead, second⟩ := p
    have hsecond := noTargets_cons.1 hmore
    cases lead with
    | tight | blank => exact LaneScript.announcesTargets_eq_false hfirst hsecond
    | newLine => exact LaneScript.announcesTargets_eq_false hfirst (by simp)

/-- No `and` or `or` follows. -/
theorem yields_conditionTail {left : Node} (h : Q left) (hhere : here.token.closesStatement = true)
    (hbound : (here :: ahead).length < bound) :
    Yields (readAt bound (.conditionTail left)) s [] (here :: ahead) Q := by
  refine yields_readAt (fun bound _ => ⟨left, ?_, h⟩) hbound
  show (Rule.conditionTail (readAt bound) left).run (s.at (here :: ahead)) = _
  have hconnective : connective? here.token = none := by
    obtain ⟨token, line, spaced⟩ := here
    cases token with
    | word text => exact Bool.noConfusion hhere
    | _ => rfl
  rw [Rule.conditionTail, run_current_bind, hconnective]
  rfl

/-- No modifier follows. -/
theorem yields_modifiers {node : Node} (h : Q node) (hhere : here.token.closesStatement = true)
    (hbound : (here :: ahead).length < bound) :
    Yields (readAt bound (.modifiers node)) s [] (here :: ahead) Q := by
  refine yields_readAt (fun bound _ => ⟨node, ?_, h⟩) hbound
  show (Rule.modifiers (readAt bound) node).run (s.at (here :: ahead)) = _
  rw [Rule.modifiers, run_current_bind]
  split
  case h_1 text htoken =>
    rw [htoken] at hhere
    exact Bool.noConfusion hhere
  case h_2 => rfl

/-- A statement that is an expression. -/
theorem ReadsBy.statement (h : ReadsBy Rule.expression Token.closesExpression levels node write)
    (hstart : StartsWith Token.opensExpression write) :
    ReadsBy Rule.statement Token.closesStatement levels node write := by
  intro s hs hdepth line spaced here ahead hhere hcloses bound hbound
  have hexpression := h hs hdepth line spaced (Token.closesExpression_of_closesStatement hhere)
    hcloses bound hbound
  obtain ⟨token, more, htoken, hplace⟩ := hstart.exists_place line spaced
  have hlength : (here :: ahead).length < bound := by
    rw [hplace, length_append, length_cons] at hbound
    omega
  -- The expression goes up through the rules between it and a statement, each of which finds
  -- nothing of its own: no `not` before it, no connective and no modifier behind it.
  have hnegation : Reads (Rule.negation (readAt bound)) s (place line spaced (write .tight))
      (here :: ahead) node := by
    refine hexpression.of_run_eq ?_
    rw [hplace, cons_append, Rule.negation, run_line_bind, eatWord,
      run_eat_bind_of_ne (Token.ne_of_class htoken (by decide))]
    rfl
  have hcondition : Reads (Rule.condition (readAt bound)) s (place line spaced (write .tight))
      (here :: ahead) node :=
    hnegation.bind_left fun found hfound => yields_conditionTail hfound hhere hlength
  have hmodified : Reads (do readAt bound (.modifiers (← Rule.condition (readAt bound)))) s
      (place line spaced (write .tight)) (here :: ahead) node :=
    hcondition.bind_left fun found hfound => yields_modifiers hfound hhere hlength
  refine hmodified.of_run_eq ?_
  rw [Rule.statement, run_get_bind]
  have hannounces := hstart.announcesTargets_eq_false line spaced ahead hhere
  rw [hplace, cons_append] at hannounces ⊢
  simp only [State.cursor_at, Cursor.ofTokens_cons, hannounces]
  rfl

/-- A line end closes a value when no chain goes on behind it. -/
theorem closes_newline {next : Located} {tokens : List Located} (line : Nat) (spaced : Bool)
    (hnewline : next.token ≠ .newline) (hdot : next.token ≠ .dot ∧ next.token ≠ .safeDot) :
    Closes ⟨.newline, line, spaced⟩ (next :: tokens) := by
  have hskip : (Cursor.mk ⟨.newline, line, spaced⟩ (next :: tokens)).skip (· == .newline) =
      ⟨next, tokens⟩ := by
    rw [Cursor.skip_of_true (by simp)]
    exact Cursor.skip_of_false (beq_eq_false_iff_ne.2 hnewline)
  refine ⟨rfl, rfl, ?_⟩
  rw [hskip]
  exact hdot

/-- The node, written so, can be a statement of a body. -/
structure IsStatement (levels : Nat) (node : Node) (write : Lead → List Spelled) : Prop where
  starts : StartsWith Token.opensExpression write
  reads : ReadsBy Rule.statement Token.closesStatement levels node write

/-- What ends the statements of a body: the tokens that the rule takes there, and the rest. -/
structure EndsBody (stops : List String) (ends : List Located) (last : Located)
    (ahead : List Located) : Prop where
  reads : ∀ (s : State) (bound : Nat), (ends ++ last :: ahead).length < bound →
    ReadsAll (readAt bound (.statements stops)) s ends (last :: ahead) []
  closes : ∃ here behind, ends ++ last :: ahead = here :: behind ∧
    here.token.closesStatement = true ∧ Closes here behind

section Body

variable {stops : List String} {ends : List Located} {last : Located} {indent : Nat}
  {nodes : List Node}

/-- One line end before a statement or an `end` is passed over. -/
theorem run_statements_newline (read : Reader) (stops : List String) {newline next : Located}
    (hnewline : newline.token = .newline) (hnext : isTerminator next.token = false) :
    (Rule.statements read stops).run (s.at (newline :: next :: ahead)) =
      (Rule.statements read stops).run (s.at (next :: ahead)) := by
  rw [Rule.statements, run_skipTerminators_bind_newline hnewline hnext,
    run_skipTerminators_bind hnext]

/-- No statement is read where the word that ends them stands. -/
theorem run_statements_of_ends (read : Reader) (hlast : isTerminator last.token = false)
    (hends : Rule.endsStatements stops last.token = true) :
    (Rule.statements read stops).run (s.at (last :: ahead)) = .ok ([], s.at (last :: ahead)) := by
  rw [Rule.statements, run_skipTerminators_bind hlast, run_current_bind, hends]
  rfl

/-- A closing parenthesis, or the end of the input. -/
theorem endsBody_nil (hlast : last.token = .rparen ∨ last.token = .done) (stops : List String)
    (ahead : List Located) : EndsBody stops [] last ahead := by
  obtain ⟨token, line, spaced⟩ := last
  refine ⟨fun s bound hbound => yields_readAt (fun bound _ => ⟨[], ?_, rfl⟩) hbound,
    _, _, rfl, ?_, closes_of_closesExpression _ ?_ ?_⟩
  · exact run_statements_of_ends _ (by rcases hlast with rfl | rfl <;> rfl)
      (by rcases hlast with rfl | rfl <;> rfl)
  all_goals rcases hlast with rfl | rfl <;> simp [Token.closesStatement, Token.closesExpression]

/-- The word `end` on a line of its own. -/
theorem endsBody_end (hstops : "end" ∈ stops) (line : Nat) (spaced : Bool)
    (hlast : last.token = .word "end") (ahead : List Located) :
    EndsBody stops [⟨.newline, line, spaced⟩] last ahead := by
  have hterminator : isTerminator last.token = false := by rw [hlast]; rfl
  have hends : Rule.endsStatements stops last.token = true := by
    rw [hlast]
    exact contains_iff_mem.2 hstops
  refine ⟨fun s bound hbound => yields_readAt (fun bound _ => ⟨[], ?_, rfl⟩) hbound,
    _, _, rfl, rfl, closes_newline line spaced (by simp [hlast]) (by simp [hlast])⟩
  exact (run_statements_newline _ stops rfl hterminator).trans
    (run_statements_of_ends _ hterminator hends)

/-- A statement and those behind it. -/
theorem readsAll_statements_cons (hnode : IsStatement levels node write) (hs : s.Calm)
    (hdepth : s.depth + levels ≤ maxNesting) (hstops : stops ⊆ stopWords)
    (line : Nat) (spaced : Bool) {tokens rest : List Located}
    (hcloses : ∃ here behind, tokens ++ rest = here :: behind ∧
      here.token.closesStatement = true ∧ Closes here behind)
    (htail : ReadsAll (readAt bound (.statements stops)) s tokens rest nodes)
    (hbound : (place line spaced (write .tight) ++ (tokens ++ rest)).length ≤ bound) :
    ReadsAll (Rule.statements (readAt bound) stops) s
      (place line spaced (write .tight) ++ tokens) rest (node :: nodes) := by
  obtain ⟨here, behind, hrest, hhere, hends⟩ := hcloses
  rw [hrest] at hbound
  obtain ⟨found, hrun, hfound⟩ := hnode.reads hs hdepth line spaced hhere hends bound hbound
  obtain ⟨others, hrunTail, hothers⟩ := htail
  obtain ⟨token, more, htoken, hplace⟩ := hnode.starts.exists_place line spaced
  -- What closes the statement is a line end or ends the body, so the rule has no complaint.
  have hbehind : (!isTerminator here.token && !Rule.endsStatements stops here.token) = false := by
    obtain ⟨token, line, spaced⟩ := here
    cases token with
    | newline | done | rparen => rfl
    | _ => exact Bool.noConfusion hhere
  refine ⟨found :: others, ?_, ?_⟩
  swap
  · show bareAll (found :: others) = bareAll (node :: nodes)
    rw [bareAll_cons, bareAll_cons, hfound, hothers]
  rw [List.append_assoc, hrest]
  rw [hrest] at hrunTail
  rw [hplace, cons_append] at hrun ⊢
  rw [Rule.statements, run_skipTerminators_bind (isTerminator_of_opensExpression htoken),
    run_current_bind, endsStatements_of_opensExpression htoken hstops]
  refine (run_bind_ok hrun _).trans ?_
  rw [run_current_bind]
  simp only [hbehind, Bool.false_eq_true, if_false]
  exact run_bind_ok hrunTail _

/-- Behind a statement stands a line end, or what ends the body. -/
theorem closes_spelledBody
    (hnodes : ∀ node ∈ nodes, IsStatement levels node (node.spelled indent))
    (hends : EndsBody stops ends last ahead) (line : Nat) (spaced : Bool) :
    ∃ here behind,
      place line spaced (spelledBody indent nodes (.newLine indent)) ++ ends ++ last :: ahead =
        here :: behind ∧ here.token.closesStatement = true ∧ Closes here behind := by
  cases nodes with
  | nil => exact hends.closes
  | cons node nodes =>
    have hnode := (hnodes node (by simp)).starts
    obtain ⟨token, more, htoken, hplace⟩ := hnode.exists_place (line + 1) true
    rw [spelledBody, hnode.place_newLine_append, hnode.place_append, hplace]
    exact ⟨_, _, rfl, rfl, closes_newline line spaced (Token.ne_of_class htoken rfl)
      ⟨Token.ne_of_class htoken rfl, Token.ne_of_class htoken rfl⟩⟩

/-- The statements of a body, each on a line of its own. -/
theorem readsAll_statements (hnodes : ∀ node ∈ nodes, IsStatement levels node (node.spelled indent))
    (hs : s.Calm) (hdepth : s.depth + levels ≤ maxNesting) (hstops : stops ⊆ stopWords)
    (hends : EndsBody stops ends last ahead) (line : Nat) (spaced : Bool)
    (hbound : (place line spaced (spelledBody indent nodes (.newLine indent)) ++ ends ++
      last :: ahead).length < bound) :
    ReadsAll (readAt bound (.statements stops)) s
      (place line spaced (spelledBody indent nodes (.newLine indent)) ++ ends) (last :: ahead)
      nodes := by
  -- Each statement takes one request, and its line end, passed over first, pays for it.
  induction nodes generalizing line spaced bound with
  | nil => exact hends.reads s bound hbound
  | cons node nodes ih =>
    obtain ⟨hnode, hnodes⟩ := forall_mem_cons.1 hnodes
    rw [spelledBody, hnode.starts.place_newLine_append, hnode.starts.place_append] at hbound ⊢
    cases bound with
    | zero => exact absurd hbound (Nat.not_lt_zero _)
    | succ bound =>
      simp only [cons_append, List.append_assoc, length_cons] at hbound ⊢
      have hshort := Nat.lt_of_succ_lt_succ hbound
      have htail : ReadsAll (readAt bound (.statements stops)) s
          (place (line + 1 + spelledLines (node.spelled indent .tight)) false
            (spelledBody indent nodes (.newLine indent)) ++ ends) (last :: ahead) nodes := by
        apply ih hnodes
        rw [length_append] at hshort
        rw [List.append_assoc]
        omega
      obtain ⟨found, hrun, hfound⟩ := readsAll_statements_cons hnode hs hdepth hstops (line + 1)
        true (closes_spelledBody hnodes hends _ false) htail
        (by rw [List.append_assoc]; exact Nat.le_of_lt hshort)
      obtain ⟨token, more, htoken, hplace⟩ := hnode.starts.exists_place (line + 1) true
      refine ⟨found, ?_, hfound⟩
      rw [hplace] at hrun ⊢
      exact (run_statements_newline _ stops rfl (isTerminator_of_opensExpression htoken)).trans hrun

end Body

end Statements

end LaneScript
