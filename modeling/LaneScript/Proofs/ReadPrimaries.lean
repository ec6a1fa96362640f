import LaneScript.Proofs.GroupedKeywords
import LaneScript.Proofs.ReadSequences

/-!
# Reading written primary expressions

Which primary expression stands at a place shows in its first token.  For literals this token is all
there is (`readsBy_literal`); parentheses, brackets and braces enclose a sequence and give its
reading back (`ReadsBy.parens`, `readsBy_array`, `readsBy_hash`).

A name that is not reserved is a call.  Its arguments stand in parentheses, `yields_arguments?`, and
the pairs at their end are gathered into one hash, `groupKeywords_entries`.  Behind the arguments a
`do` opens a block, `readsBy_block`.
-/

namespace LaneScript

open LaneScript.Parser
open List

section Primaries

variable {s : State} {here first : Located} {ahead tokens rest : List Located} {bound levels : Nat}
  {node : Node} {Q : Node → Prop} {write : Lead → List Spelled}

/-! ### Literals -/

/-- The first token tells the form. -/
theorem yields_primary {form : Parser Node}
    (hform : Rule.formBehind? (readAt bound) first.line first.token = some form)
    (hne : tokens ++ rest ≠ []) (h : Yields form s tokens rest Q) :
    Yields (Rule.primary (readAt bound)) s (first :: tokens) rest Q := by
  refine (h.advance hne).of_run_eq ?_
  rw [Rule.primary, cons_append, run_current_bind]
  split
  case h_1 text htoken =>
    rw [htoken] at hform
    exact absurd hform (by simp [Rule.formBehind?])
  case h_2 => rw [hform]

/-- A literal of one token. -/
theorem readsBy_literal {token : Token} {form : Form} (nodeLine : Nat)
    (hform : ∀ (read : Reader) (line : Nat) (s : State) (here : Located) (ahead : List Located),
      here.token.closesValue = true → ∃ behind, Rule.formBehind? read line token = some behind ∧
        behind.run (s.at (here :: ahead)) = .ok (⟨form, line⟩, s.at (here :: ahead))) :
    ReadsBy Rule.primary Token.closesValue 0 ⟨form, nodeLine⟩ fun lead => [⟨lead, token⟩] := by
  intro s _ _ line spaced here ahead hhere _ bound _
  obtain ⟨behind, hbehind, hrun⟩ := hform (readAt bound) line s here ahead hhere
  have hnode : Reads behind s [] (here :: ahead) ⟨form, nodeLine⟩ := ⟨⟨form, line⟩, hrun, rfl⟩
  exact yields_primary hbehind (by simp) hnode

theorem readsBy_int (value : Int) (nodeLine : Nat) :
    ReadsBy Rule.primary Token.closesValue 0 ⟨.int value, nodeLine⟩
      fun lead => [⟨lead, .int value⟩] :=
  readsBy_literal nodeLine fun _ _ _ _ _ _ => ⟨_, rfl, rfl⟩

theorem readsBy_sym (name : String) (nodeLine : Nat) :
    ReadsBy Rule.primary Token.closesValue 0 ⟨.sym name, nodeLine⟩
      fun lead => [⟨lead, .symbol name⟩] :=
  readsBy_literal nodeLine fun _ _ _ _ _ _ => ⟨_, rfl, rfl⟩

/-- A constant, with no parentheses of a call behind it. -/
theorem readsBy_const (name : String) (nodeLine : Nat) :
    ReadsBy Rule.primary Token.closesValue 0 ⟨.const none name, nodeLine⟩
      fun lead => [⟨lead, .const name⟩] := by
  refine readsBy_literal nodeLine fun read line s here ahead hhere => ⟨_, rfl, ?_⟩
  have hparen : (here.token == .lparen && !here.spaced) = false := by
    have hne : here.token ≠ .lparen := Token.ne_of_class hhere rfl
    rw [beq_eq_false_iff_ne.2 hne, Bool.false_and]
  rw [Rule.constant, run_isAtCallParen_bind, hparen]
  rfl

theorem Cursor.strings_of_closesValue (h : here.token.closesValue = true) :
    (Cursor.mk here ahead).strings = ([], ⟨here, ahead⟩) := by
  cases ahead with
  | nil => rfl
  | cons next ahead =>
    obtain ⟨token, line, spaced⟩ := here
    cases token with
    | str parts => exact Bool.noConfusion h
    | _ => rfl

/-- A string without code, with no string beside it. -/
theorem readsBy_str (content : String) (nodeLine : Nat) :
    ReadsBy Rule.primary Token.closesValue 0 ⟨.str content, nodeLine⟩
      fun lead => [⟨lead, .str [.text content]⟩] := by
  refine readsBy_literal nodeLine fun read line s here ahead hhere => ⟨_, rfl, ?_⟩
  have hform : (Rule.strings read [.text content]).run (s.at (here :: ahead)) =
      .ok (.str content, s.at (here :: ahead)) := by
    rw [Rule.strings, run_get_bind]
    simp only [State.cursor_at, Cursor.ofTokens_cons, Cursor.strings_of_closesValue hhere]
    show Except.ok (Form.str (String.join [content]), s.at (here :: ahead)) = _
    simp [String.join]
  exact run_bind_ok hform _

/-! ### Parentheses -/

theorem eq_singleton_of_bareAll {found : List Node} (h : bareAll found = bareAll [node]) :
    ∃ only, found = [only] ∧ only.bare = node.bare := by
  cases found with
  | nil => simp [bareAll, mapLinesAll] at h
  | cons only others =>
    rw [bareAll_cons, bareAll_cons, List.cons.injEq] at h
    cases others with
    | nil => exact ⟨only, rfl, h.1⟩
    | cons next others => simp [bareAll, mapLinesAll] at h

theorem StartsWith.place_parens {opens : Token → Bool} (h : StartsWith opens write) (line : Nat)
    (spaced : Bool) :
    place line spaced (spelledParens .tight (write .tight)) =
      ⟨.lparen, line, spaced⟩ :: (place line false (write .tight) ++
        [⟨.rparen, line + spelledLines (write .tight), false⟩]) := by
  show _ :: place line false (write .tight ++ [⟨.tight, .rparen⟩]) = _
  rw [h.place_append]
  rfl

/-- An expression in parentheses.  It stands there as the only statement. -/
theorem ReadsBy.parens (h : ReadsBy Rule.ternary Token.closesExpression levels node write)
    (hstart : StartsWith Token.opensExpression write) :
    ReadsBy Rule.primary Token.closesValue (levels + 1) node
      fun lead => spelledParens lead (write .tight) := by
  have hstatement : IsStatement (levels + 1) node write := ⟨hstart, h.expression.statement hstart⟩
  intro s hs hdepth line spaced here ahead hhere hcloses bound hbound
  rw [hstart.place_parens] at hbound ⊢
  rw [cons_append, List.append_assoc, singleton_append, length_cons] at hbound
  refine yields_primary rfl (by simp) ?_
  have hends : EndsBody [] [] ⟨.rparen, line + spelledLines (write .tight), false⟩
      (here :: ahead) := endsBody_nil (.inl rfl) [] _
  -- One statement, with no line end before it, so `readsAll_statements` does not apply.
  have hbody : ReadsAll (readAt bound (.statements [])) s (place line false (write .tight))
      (⟨.rparen, line + spelledLines (write .tight), false⟩ :: here :: ahead) [node] := by
    refine yields_readAt (fun bound hbound => ?_) hbound
    have hlength := length_pos_iff.2 (hstart.ne_nil line false)
    have htail := hends.reads s bound (by
      rw [length_append] at hbound
      simp only [nil_append]
      omega)
    have hbody := readsAll_statements_cons hstatement hs hdepth (nil_subset _) line false
      hends.closes htail hbound
    rwa [append_nil] at hbody
  refine (hbody.allowingDo hs.claims).bind fun found hfound => ?_
  obtain ⟨only, rfl, honly⟩ := eq_singleton_of_bareAll hfound
  refine Yields.of_run_eq (run_skipTerminators_bind rfl _) ?_
  exact Yields.expect rfl (by simp) (yields_pure honly)

/-! ### Arrays and hashes -/

theorem bareAll_eq_map (nodes : List Node) : bareAll nodes = nodes.map Node.bare :=
  mapLinesAll_eq_map _ nodes

theorem bareAll_groupKeywords (nodes : List Node) :
    bareAll (groupKeywords nodes) = groupKeywords (bareAll nodes) :=
  (groupKeywords_mapLinesAll _ nodes).symm

section Lists

variable {indent : Nat} {nodes : List Node}

/-- The items between brackets, with the closing one. -/
theorem yields_items {close : Token} (closeText : String) {last : Located}
    (hnodes : ∀ node ∈ nodes, IsItem (· .argument) indent levels node) (hs : s.Calm)
    (hdepth : s.depth + levels ≤ maxNesting) (hlast : last.token = close)
    (hclose : close.closesItem = true) (hcomma : close ≠ .comma) (hahead : ahead ≠ [])
    (line : Nat) (spaced : Bool)
    (hbound : (place line spaced (spelledList indent nodes .tight) ++ last :: ahead).length <
      bound) :
    ReadsAll (Rule.items (readAt bound) close closeText) s
      (place line spaced (spelledList indent nodes .tight) ++ [last]) ahead
      (groupKeywords nodes) := by
  rw [items_eq_listOf]
  refine (yields_listOf (· .argument) (readAt · (.moreItems close)) groupKeywords closeText
    (fun bound => moreItems_eq_moreOf (readAt bound) close) hnodes hs hdepth hlast hclose hcomma
    hahead line spaced hbound).mono ?_
  rintro _ ⟨others, hothers, rfl⟩
  rw [bareAll_groupKeywords, bareAll_groupKeywords, hothers]

/-- The entries between braces, with the closing one. -/
theorem yields_entries {last : Located}
    (hnodes : ∀ node ∈ nodes, IsItem Rule.entry indent levels node) (hs : s.Calm)
    (hdepth : s.depth + levels ≤ maxNesting) (hlast : last.token = .rbrace) (hahead : ahead ≠ [])
    (line : Nat) (spaced : Bool)
    (hbound : (place line spaced (spelledList indent nodes .tight) ++ last :: ahead).length <
      bound) :
    ReadsAll (Rule.entries (readAt bound)) s
      (place line spaced (spelledList indent nodes .tight) ++ [last]) ahead nodes := by
  rw [entries_eq_listOf]
  refine (yields_listOf Rule.entry (readAt · .moreEntries) id "\x7d"
    (fun bound => moreEntries_eq_moreOf (readAt bound)) hnodes hs hdepth
    hlast rfl (by simp) hahead line spaced hbound).mono ?_
  rintro _ ⟨others, hothers, rfl⟩
  exact hothers

/-- An array of values. -/
theorem readsBy_array (hnodes : ∀ node ∈ nodes, IsItem (· .argument) indent levels node)
    (hvalues : ∀ node ∈ nodes, node.isKeywordEntry = false) (nodeLine : Nat) :
    ReadsBy Rule.primary Token.closesValue levels ⟨.array nodes, nodeLine⟩ fun lead =>
      ⟨lead, .lbracket⟩ :: (spelledList indent nodes .tight ++ [⟨.tight, .rbracket⟩]) := by
  intro s hs hdepth line spaced here ahead hhere hcloses bound hbound
  have hplace : place line spaced
      (⟨.tight, .lbracket⟩ :: (spelledList indent nodes .tight ++ [⟨.tight, .rbracket⟩])) =
      ⟨.lbracket, line, spaced⟩ :: (place line false (spelledList indent nodes .tight) ++
        [⟨.rbracket, line + spelledLines (spelledList indent nodes .tight), false⟩]) := by
    show _ :: place line false _ = _
    rw [place_append]
    rfl
  rw [hplace] at hbound ⊢
  rw [cons_append, List.append_assoc, singleton_append, length_cons] at hbound
  refine yields_primary rfl (by simp) ?_
  refine (yields_items "]" hnodes hs hdepth rfl rfl (by simp) (by simp) line false hbound).bind_left
    fun found hfound => yields_pure ?_
  -- no value is a keyword, so there is nothing to gather
  rw [groupKeywords_values hvalues] at hfound
  exact congrArg (fun items => Node.mk (.array items) 0) hfound

/-- The tokens of a hash with braces. -/
def spelledHash (indent : Nat) (nodes : List Node) (lead : Lead) : List Spelled :=
  if nodes.isEmpty then [⟨lead, .lbrace⟩, ⟨.tight, .rbrace⟩]
  else ⟨lead, .lbrace⟩ :: (spelledList indent nodes .blank ++ [⟨.blank, .rbrace⟩])

theorem exists_place_spelledHash (hnodes : ∀ node ∈ nodes, IsItem Rule.entry indent levels node)
    (line : Nat) (spaced : Bool) :
    ∃ blank last, last.token = .rbrace ∧ place line spaced (spelledHash indent nodes .tight) =
      ⟨.lbrace, line, spaced⟩ ::
        (place line blank (spelledList indent nodes .tight) ++ [last]) := by
  cases nodes with
  | nil => exact ⟨false, ⟨.rbrace, line, false⟩, rfl, rfl⟩
  -- with entries there are blanks inside the braces
  | cons node nodes =>
    have hnode := (hnodes node (by simp)).starts
    refine ⟨true, ⟨.rbrace, line + spelledLines (spelledList indent (node :: nodes) .tight), true⟩,
      rfl, ?_⟩
    show _ :: place line false (spelledList indent (node :: nodes) .blank ++ _) = _
    rw [spelledList, List.append_assoc, hnode.place_blank_append, ← List.append_assoc,
      place_append, spelledList]
    rfl

/-- A hash with braces. -/
theorem readsBy_hash (hnodes : ∀ node ∈ nodes, IsItem Rule.entry indent levels node)
    (nodeLine : Nat) :
    ReadsBy Rule.primary Token.closesValue levels ⟨.hash nodes true, nodeLine⟩
      (spelledHash indent nodes) := by
  intro s hs hdepth line spaced here ahead hhere hcloses bound hbound
  obtain ⟨blank, last, hlast, hplace⟩ := exists_place_spelledHash hnodes line spaced
  rw [hplace] at hbound ⊢
  rw [cons_append, List.append_assoc, singleton_append, length_cons] at hbound
  refine yields_primary rfl (by simp) ?_
  refine (yields_entries hnodes hs hdepth hlast (by simp) line blank hbound).bind_left
    fun found hfound => yields_pure ?_
  exact congrArg (fun entries => Node.mk (.hash entries true) 0) hfound

end Lists

/-! ### Words -/

theorem run_primary_word (read : Reader) {text : String} (h : first.token = .word text) :
    (Rule.primary read).run (s.at (first :: tokens)) =
      (Rule.word read text first.line).run (s.at (first :: tokens)) := by
  rw [Rule.primary, run_current_bind, h]

theorem atom?_text (atom : Atom) : Rule.atom? atom.text = some atom := by
  cases atom <;> rfl

/-- A keyword that is a value. -/
theorem readsBy_atom (atom : Atom) (nodeLine : Nat) :
    ReadsBy Rule.primary Token.closesValue 0 ⟨.atom atom, nodeLine⟩
      fun lead => [⟨lead, .word atom.text⟩] := by
  intro s _ _ line spaced here ahead _ _ bound _
  refine ⟨⟨.atom atom, line⟩, ?_, rfl⟩
  refine (run_primary_word _ rfl).trans ?_
  rw [Rule.word, atom?_text]
  exact run_advance_bind (by simp) _

section Names

variable {name : String} (hname : name ∉ reservedWords)

include hname

-- The words that the three tables know are all reserved.

theorem atom?_of_not_reserved : Rule.atom? name = none := by
  unfold Rule.atom?
  split <;> first | rfl | exact absurd (by decide) hname

theorem jump?_of_not_reserved : Rule.jump? name = none := by
  unfold Rule.jump?
  split <;> first | rfl | exact absurd (by decide) hname

theorem construct?_of_not_reserved (read : Reader) (line : Nat) :
    Rule.construct? read line name = none := by
  unfold Rule.construct?
  split <;> first | rfl | exact absurd (by decide) hname

/-- A name that is neither reserved nor a local variable is that of a method. -/
theorem run_word_name (read : Reader) (line : Nat) (hlocal : Scope.sees name s.scopes = false)
    (hne : ahead ≠ []) :
    (Rule.word read name line).run (s.at (here :: ahead)) =
      (Rule.call read none name false line).run (s.at ahead) := by
  have hword : ∀ word, word ∈ reservedWords → (name == word) = false := by
    intro word hword
    exact beq_eq_false_iff_ne.2 fun h => hname (h ▸ hword)
  have hstop : stopWords.contains name = false := by
    have hsubset : stopWords ⊆ reservedWords := by decide
    rw [contains_eq_mem, decide_eq_false_iff_not]
    exact fun hmem => hname (hsubset hmem)
  rw [Rule.word, atom?_of_not_reserved hname, construct?_of_not_reserved hname,
    jump?_of_not_reserved hname]
  -- all the words with a rule of their own are reserved
  simp only [hword "yield" (by decide), hword "super" (by decide), hword "defined?" (by decide),
    hword "not" (by decide), hstop, Bool.false_eq_true, if_false]
  rw [run_advance_bind hne, run_isLocal_bind,
    show Scope.sees name (s.at ahead).scopes = false from hlocal]
  rfl

end Names

/-! ### Calls -/

section Calls

variable {name : String} {args : List Node} {indent : Nat}

/-- The tokens of the arguments of a call. -/
def spelledArguments (indent : Nat) (args : List Node) : List Spelled :=
  if args.isEmpty then [] else spelledParens .tight (spelledList indent args .tight)

/-- The arguments of a call can be read from the items of a list, in which the pairs are not yet
gathered. -/
structure IsArguments (indent levels : Nat) (args items : List Node) : Prop where
  reads : ∀ item ∈ items, IsItem (· .argument) indent levels item
  grouped : bareAll (groupKeywords items) = bareAll args
  spelled : spelledList indent args .tight = spelledList indent items .tight

/-- The arguments of a call, in parentheses if there are any. -/
theorem yields_arguments? {items : List Node} (hargs : IsArguments indent levels args items)
    (hs : s.Calm) (hdepth : s.depth + levels ≤ maxNesting) (line : Nat)
    (hparen : here.token ≠ .lparen)
    (hargument : here.startsArgument ((Cursor.mk here ahead).peek 1) = false)
    (hbound : (place line false (spelledArguments indent args) ++ here :: ahead).length ≤ bound) :
    Yields (Rule.arguments? (readAt bound)) s (place line false (spelledArguments indent args))
      (here :: ahead) fun found => bareAll (found.getD []) = bareAll args := by
  cases args with
  -- No parentheses are written, and what follows is not taken for an argument either.
  | nil =>
    have hcall : (here.token == .lparen && !here.spaced) = false := by
      rw [beq_eq_false_iff_ne.2 hparen, Bool.false_and]
    refine ⟨none, ?_, rfl⟩
    show (Rule.arguments? (readAt bound)).run (s.at (here :: ahead)) = _
    rw [Rule.arguments?, run_isAtCallParen_bind, hcall]
    show Parser.run (Rule.startsArgument >>= _) _ = _
    rw [run_startsArgument_bind]
    simp only [State.cursor_at, Cursor.ofTokens_cons, hargument]
    rfl
  | cons arg args =>
    have hplace : place line false (spelledArguments indent (arg :: args)) =
        ⟨.lparen, line, false⟩ :: (place line false (spelledList indent items .tight) ++
          [⟨.rparen, line + spelledLines (spelledList indent items .tight), false⟩]) := by
      show _ :: place line false (spelledList indent (arg :: args) .tight ++ _) = _
      rw [hargs.spelled, place_append]
      rfl
    rw [hplace] at hbound ⊢
    rw [cons_append, List.append_assoc, singleton_append, length_cons] at hbound
    have hitems := yields_items ")" hargs.reads hs hdepth rfl rfl (by simp) (by simp) line false
      hbound
    have hsome : Yields (do return some (← Rule.items (readAt bound) .rparen ")")) s
        (place line false (spelledList indent items .tight) ++
          [⟨.rparen, line + spelledLines (spelledList indent items .tight), false⟩])
        (here :: ahead) fun found => bareAll (found.getD []) = bareAll (arg :: args) :=
      hitems.bind_left fun found hfound => yields_pure (hfound.trans hargs.grouped)
    refine (hsome.advance (by simp)).of_run_eq ?_
    rw [Rule.arguments?, cons_append, run_isAtCallParen_bind]
    rfl

/-- Behind its arguments a call may have a block. -/
theorem run_call {s₀ : State} {found : Option (List Node)} {read : Reader} (line : Nat)
    (hrun : (Rule.arguments? read).run s₀ = .ok (found, s.at (here :: ahead)))
    (hbrace : here.token ≠ .lbrace) :
    (Rule.call read none name false line).run s₀ =
      (if here.token == .word "do" && s.claimsDo == 0 then
        Rule.block read ⟨.call none name (found.getD []) false, line⟩
      else return ⟨.call none name (found.getD []) false, line⟩).run (s.at (here :: ahead)) := by
  have hopen : (here.token == .lbrace) = false := beq_eq_false_iff_ne.2 hbrace
  have hparen : isAtCallParen.run s₀ =
      .ok (s₀.cursor.current.token == .lparen && !s₀.cursor.current.spaced, s₀) := rfl
  rw [Rule.call, run_bind_ok hparen, run_bind_ok hrun, run_isAt_bind, run_isAt_bind, hopen,
    run_get_bind]
  rfl

theorem Node.bare_call {args args' : List Node} (line line' : Nat)
    (h : bareAll args = bareAll args') :
    (Node.mk (.call none name args false) line).bare =
      (Node.mk (.call none name args' false) line').bare :=
  congrArg (fun args => Node.mk (.call none name args false) 0) h

/-- A call without a block, behind the name of its method. -/
theorem reads_call (name : String) {items : List Node}
    (hargs : IsArguments indent levels args items) (hs : s.Calm)
    (hdepth : s.depth + levels ≤ maxNesting) (line : Nat) (hcloses : Closes here ahead)
    (hbound : (place line false (spelledArguments indent args) ++ here :: ahead).length ≤ bound)
    (callLine nodeLine : Nat) :
    Reads (Rule.call (readAt bound) none name false callLine) s
      (place line false (spelledArguments indent args)) (here :: ahead)
      ⟨.call none name args false, nodeLine⟩ := by
  have hne : here.token ≠ .lparen ∧ here.token ≠ .lbrace ∧ here.token ≠ .word "do" :=
    ⟨Token.ne_of_class hcloses.token rfl, Token.ne_of_class hcloses.token rfl,
      Token.ne_of_class hcloses.token rfl⟩
  -- nothing that follows could be an argument or a block
  obtain ⟨found, hrun, hfound⟩ :=
    yields_arguments? hargs hs hdepth line hne.1 hcloses.argument hbound
  refine ⟨⟨.call none name (found.getD []) false, callLine⟩, ?_, Node.bare_call _ _ hfound⟩
  rw [run_call callLine hrun hne.2.1, beq_eq_false_iff_ne.2 hne.2.2]
  rfl

/-- A call of a method by its name. -/
theorem readsBy_methodCall {items : List Node} (hname : name ∉ reservedWords)
    (hargs : IsArguments indent levels args items) (nodeLine : Nat) :
    ReadsBy Rule.primary Token.closesValue levels ⟨.call none name args false, nodeLine⟩
      fun lead => ⟨lead, .word name⟩ :: spelledArguments indent args := by
  intro s hs hdepth line spaced here ahead hhere hcloses bound hbound
  have hcall := reads_call name hargs hs hdepth line hcloses (Nat.le_of_succ_le hbound)
    line nodeLine
  obtain ⟨found, hrun, hfound⟩ := hcall
  refine ⟨found, ?_, hfound⟩
  refine (run_primary_word _ rfl).trans ?_
  rw [run_word_name hname _ line (hs.locals name) (by simp)]
  exact hrun

/-- A call of a method with the name of a constant has arguments. -/
theorem readsBy_constantCall {items : List Node} (hne : args ≠ [])
    (hargs : IsArguments indent levels args items) (nodeLine : Nat) :
    ReadsBy Rule.primary Token.closesValue levels ⟨.call none name args false, nodeLine⟩
      fun lead => ⟨lead, .const name⟩ :: spelledArguments indent args := by
  intro s hs hdepth line spaced here ahead hhere hcloses bound hbound
  have hcall := reads_call name hargs hs hdepth line hcloses (Nat.le_of_succ_le hbound)
    line nodeLine
  -- The parenthesis of the arguments tells the call from the constant alone.
  refine yields_primary rfl (by simp) (hcall.of_run_eq ?_)
  cases args with
  | nil => exact absurd rfl hne
  | cons arg args =>
    show (Rule.constant (readAt bound) name line).run (s.at (⟨.lparen, line, false⟩ :: _)) = _
    rw [Rule.constant, run_isAtCallParen_bind]
    rfl

/-! ### Blocks -/

/-- The statements of a block, with its `end`.  There are no clauses behind them. -/
theorem yields_clauses {body : List Node} {last : Located} (line endLine : Nat) (spaced : Bool)
    (hbody : ∀ node ∈ body, IsStatement levels node (node.spelled indent)) (hs : s.Calm)
    (hdepth : s.depth + levels ≤ maxNesting) (hlast : last.token = .word "end")
    (hbound : (place line false (spelledBody indent body (.newLine indent)) ++
      [Located.mk .newline endLine spaced] ++ last :: here :: ahead).length < bound) :
    Yields (Rule.clauses (readAt bound)) s
      (place line false (spelledBody indent body (.newLine indent)) ++
        [Located.mk .newline endLine spaced] ++ [last]) (here :: ahead)
      fun found => bareAll found.body = bareAll body ∧ found.isPlain = true := by
  have hword : ∀ word, word ≠ "end" → last.token ≠ .word word := by
    intro word hword
    rw [hlast]
    exact fun h => hword (Token.word.inj h).symm
  -- The `end` is the word of none of the clauses.
  have hrescues : Yields (readAt bound .rescues) s [] (last :: here :: ahead) (· = []) := by
    refine yields_readAt (fun bound _ => ⟨[], ?_, rfl⟩) (by
      simp only [length_append, length_cons] at hbound ⊢
      omega)
    show (Rule.rescues (readAt bound)).run (s.at (last :: here :: ahead)) = _
    rw [Rule.rescues, eatWord, run_eat_bind_of_ne (hword "rescue" (by decide))]
    rfl
  have hbehind : ∀ keyword stops, keyword ≠ "end" →
      (Rule.statementsBehind? (readAt bound) keyword stops).run (s.at (last :: here :: ahead)) =
        .ok (none, s.at (last :: here :: ahead)) := by
    intro keyword stops hkeyword
    rw [Rule.statementsBehind?, eatWord, run_eat_bind_of_ne (hword keyword hkeyword)]
    rfl
  have hends : EndsBody Rule.clauseWords [⟨.newline, endLine, spaced⟩] last (here :: ahead) :=
    endsBody_end (by decide) endLine spaced hlast _
  have hstatements := readsAll_statements hbody hs hdepth (by decide) hends line false hbound
  refine Yields.bind hstatements fun found hfound => ?_
  obtain ⟨_, hrunRescues, rfl⟩ := hrescues
  refine ⟨⟨found, [], none, none⟩, ?_, hfound, rfl⟩
  refine (run_bind_ok hrunRescues _).trans ?_
  rw [run_bind_ok (hbehind "else" _ (by decide)),
    run_bind_ok (hbehind "ensure" _ (by decide)), expectWord, run_expect_bind "end" hlast (by simp)]
  rfl

/-- A block without parameters, from its `do` to its `end`. -/
theorem reads_block {body : List Node} {opening last : Located} {call found : Node}
    (line endLine : Nat) (spaced : Bool)
    (hbody : ∀ node ∈ body, IsStatement levels node (node.spelled indent)) (hs : s.Calm)
    (hdepth : s.depth + levels ≤ maxNesting) (hopening : opening.token = .word "do")
    (hlast : last.token = .word "end") (hcall : found.bare = call.bare)
    (hbound : (place line false (spelledBody indent body (.newLine indent)) ++
      [Located.mk .newline endLine spaced] ++ last :: here :: ahead).length < bound)
    (nodeLine : Nat) :
    Reads (Rule.block (readAt bound) found) s
      (opening :: (place line false (spelledBody indent body (.newLine indent)) ++
        [Located.mk .newline endLine spaced] ++ [last])) (here :: ahead)
      ⟨.block call [] body, nodeLine⟩ := by
  have hends : EndsBody Rule.clauseWords [⟨.newline, endLine, spaced⟩] last (here :: ahead) :=
    endsBody_end (by decide) endLine spaced hlast _
  obtain ⟨next, behind, hnext, hcloses, -⟩ := closes_spelledBody hbody hends line false
  -- In the scope of the block: no parameters, and the body up to its `end`.
  have hbodyToEnd : ReadsAll (Rule.bodyToEnd (readAt bound))
      { s with scopes := .empty false :: s.scopes }
      (place line false (spelledBody indent body (.newLine indent)) ++
        [Located.mk .newline endLine spaced] ++ [last]) (here :: ahead) body := by
    obtain ⟨clauses, hrun, hclauses, hplain⟩ :=
      yields_clauses line endLine spaced hbody hs.inBlock hdepth hlast hbound
    refine ⟨clauses.body, ?_, hclauses⟩
    rw [List.append_assoc, singleton_append, hnext] at hrun ⊢
    rw [Rule.bodyToEnd, run_line_bind, run_bind_ok hrun, hplain]
    rfl
  have hinner : Reads
      (do return ⟨.block found [] (← allowingDo (Rule.bodyToEnd (readAt bound))), found.line⟩)
      { s with scopes := .empty false :: s.scopes }
      (place line false (spelledBody indent body (.newLine indent)) ++
        [Located.mk .newline endLine spaced] ++ [last]) (here :: ahead)
      ⟨.block call [] body, nodeLine⟩ := by
    refine Yields.bind_left (Yields.allowingDo hs.claims hbodyToEnd) fun body' hbody' =>
      yields_pure ?_
    unfold Node.bare bareAll at *
    simp only [Node.mapLines, Form.mapLines, mapLinesParams, hcall, hbody']
  -- The parameters would stand between bars; the body starts with a line end instead.
  have hparams : ∀ s : State, (Rule.blockParams (readAt bound)).run (s.at (next :: behind)) =
      .ok ([], s.at (next :: behind)) := by
    intro s
    rw [Rule.blockParams, eatOp, run_eat_bind_of_ne (Token.ne_of_class hcloses rfl)]
    simp only [Bool.false_eq_true, if_false]
    rw [eatOp, run_eat_bind_of_ne (Token.ne_of_class hcloses rfl)]
    rfl
  have hscoped : Reads
      (withScope false do
        let params ← Rule.blockParams (readAt bound)
        let body ← allowingDo (Rule.bodyToEnd (readAt bound))
        return ⟨.block found params body, found.line⟩) s
      (place line false (spelledBody indent body (.newLine indent)) ++
        [Located.mk .newline endLine spaced] ++ [last]) (here :: ahead)
      ⟨.block call [] body, nodeLine⟩ := by
    refine Yields.withScope (hinner.of_run_eq ?_)
    rw [List.append_assoc, singleton_append, hnext]
    exact run_bind_ok (hparams _) _
  have hbrace : (opening.token == .lbrace) = false := by rw [hopening]; rfl
  refine (hscoped.advance (by simp)).of_run_eq ?_
  rw [Rule.block, cons_append, run_isAt_bind, hbrace]
  rfl

/-- The tokens of a block without parameters. -/
def spelledBlock (indent : Nat) (body : List Node) : List Spelled :=
  ⟨.blank, .word "do"⟩ :: (spelledBody (indent + 1) body (.newLine (indent + 1)) ++
    [⟨.newLine indent, .word "end"⟩])

theorem place_spelledBlock (indent : Nat) (body : List Node) (line : Nat) :
    ∃ endLine, place line false (spelledBlock indent body) = ⟨.word "do", line, true⟩ ::
      (place line false (spelledBody (indent + 1) body (.newLine (indent + 1))) ++
        [⟨.newline, endLine, false⟩] ++ [⟨.word "end", endLine + 1, true⟩]) := by
  refine ⟨line + spelledLines (spelledBody (indent + 1) body (.newLine (indent + 1))), ?_⟩
  show _ :: place line false _ = _
  rw [place_append, List.append_assoc]
  rfl

/-- A call with a block. -/
theorem readsBy_block {items body : List Node} (hname : name ∉ reservedWords)
    (hargs : IsArguments indent levels args items)
    (hbody : ∀ node ∈ body, IsStatement levels node (node.spelled (indent + 1)))
    (callLine nodeLine : Nat) :
    ReadsBy Rule.primary Token.closesValue levels
      ⟨.block ⟨.call none name args false, callLine⟩ [] body, nodeLine⟩ fun lead =>
        (⟨lead, .word name⟩ :: spelledArguments indent args) ++ spelledBlock indent body := by
  intro s hs hdepth line spaced here ahead hhere hcloses bound hbound
  obtain ⟨endLine, hblock⟩ := place_spelledBlock indent body
    (line + spelledLines (spelledArguments indent args))
  have hplace : place line spaced ((⟨.tight, .word name⟩ :: spelledArguments indent args) ++
      spelledBlock indent body) = ⟨.word name, line, spaced⟩ ::
        (place line false (spelledArguments indent args) ++
          place (line + spelledLines (spelledArguments indent args)) false
            (spelledBlock indent body)) := by
    show _ :: place line false (spelledArguments indent args ++ spelledBlock indent body) = _
    rw [place_append]
    rfl
  rw [hplace, hblock] at hbound ⊢
  -- from here on the line of the `do` is any line
  generalize line + spelledLines (spelledArguments indent args) = doLine at hbound ⊢
  rw [cons_append, length_cons, List.append_assoc] at hbound
  have hbodyBound : (place doLine false (spelledBody (indent + 1) body (.newLine (indent + 1))) ++
      [Located.mk .newline endLine false] ++
        Located.mk (.word "end") (endLine + 1) true :: here :: ahead).length < bound := by
    simp only [length_append, length_cons] at hbound ⊢
    omega
  obtain ⟨found, hrunArguments, hfound⟩ := yields_arguments? hargs hs hdepth line (by simp)
    (by rfl) (Nat.le_of_succ_le hbound)
  have hdo : (Located.mk (.word "do") doLine true).token = .word "do" := rfl
  obtain ⟨node, hrunBlock, hnode⟩ := reads_block doLine endLine false hbody hs hdepth hdo rfl
    (Node.bare_call line callLine hfound) hbodyBound nodeLine
  refine ⟨node, ?_, hnode⟩
  rw [cons_append, List.append_assoc]
  refine (run_primary_word _ rfl).trans ?_
  rw [run_word_name hname _ line (hs.locals name) (by simp)]
  refine (run_call line hrunArguments (by simp)).trans ?_
  rw [hs.claims]
  exact hrunBlock

end Calls

end Primaries

end LaneScript
