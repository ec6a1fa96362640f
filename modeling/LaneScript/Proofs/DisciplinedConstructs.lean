import LaneScript.Proofs.ReaderDiscipline
import LaneScript.Proofs.WellFormedTokens

/-!
# The constructs keep the discipline

Each rule for a construct is followed here (`Follows`): strings, lists in brackets, bodies with
their clauses, parameters, blocks, calls, conditionals, loops and definitions.  There is one lemma
for a rule, which goes through the rule line by line.  The parts of a construct are read by a reader
of which the same is supposed, `FollowingReader`.

A nonterminal may go on from a node that it is given, which is then what has been read before it.
What is known of a result besides its content is said by `Nonterminal.Returns`.
-/

namespace LaneScript

open LaneScript.Parser
open List

/-! ### What a nonterminal holds -/

/-- What has been read when the nonterminal is asked for: the node that it goes on with. -/
def Nonterminal.given : Nonterminal → Content
  | .modifiers node | .chain node | .constPath node _ => .ofNode node
  | .conditionTail left | .operationTail _ _ left => .ofNode left
  | _ => ∅

/-- What is read for a nonterminal. -/
def Nonterminal.content : (n : Nonterminal) → n.Tree → Content
  | .statements _, nodes | .moreArguments, nodes | .moreItems _, nodes | .moreEntries, nodes
  | .moreClasses, nodes => .ofNodes nodes
  | .targets, found => .all Node.asTarget found
  | .params _, found => paramsContent found
  | .rescues, clauses => .all Rescue.content clauses
  | .whens, branches => .ofNodes (branches.flatMap When.nodes)
  | .otherwise, body => .ofNodes (body.getD [])
  | .modifiers _, node | .condition, node | .conditionTail _, node | .negation, node
  | .expression, node | .ternary, node | .operation _, node | .operationTail _ _ _, node
  | .signed, node | .unary, node | .chain _, node | .argument, node | .argumentValue, node
  | .constPath _ _, node => .ofNode node

/-- How what is read for a nonterminal lies in the levels, if there is more to say than that it
fits. -/
def Nonterminal.Returns (d : ReadingLevel) : (n : Nonterminal) → n.Tree → Prop
  | .statements _, body => ∀ node ∈ (body : List Node), node.IsStatementAt d
  | .modifiers before, node => before.IsStatementAt d → Node.IsStatementAt d node
  | .condition, node | .negation, node | .expression, node | .argumentValue, node =>
    Node.FitsDeeper d node
  | .conditionTail left, node => left.FitsDeeper d → Node.FitsDeeper d node
  | .argument, node => Node.IsItem d node
  | .moreArguments, args | .moreItems _, args => ∀ arg ∈ (args : List Node), arg.IsItem d
  | .moreEntries, entries => ∀ entry ∈ (entries : List Node), entry.IsEntry d
  | _, _ => True

/-- The reader keeps the discipline for every nonterminal and at every level. -/
def FollowingReader (read : Reader) : Prop :=
  ∀ d n, Follows d n.given (read n) n.content (n.Returns d)

section Rules

variable {read : Reader} (hread : FollowingReader read) {d : ReadingLevel} {c : Content}
include hread

/-! ### Strings -/

/-- A script is read in the scope that is there. -/
theorem follows_program : Follows d ∅ (Rule.program read) Content.ofNodes
    fun body => ∀ node ∈ body, node.IsStatementAt d := by
  refine (hread d (.statements [])).bind fun body hbody => .after quiet_current fun here => ?_
  split
  · exact fails_unexpected.bind
  · exact follows_pure (.refl _) hbody

omit hread in
/-- A name that is seen behind interpolated code is seen in the code or before it. -/
theorem sees_absorb {inner outer : List Scope} {name : String}
    (h : Scope.sees name (Scope.absorb inner outer) = true) :
    Scope.sees name inner = true ∨ Scope.sees name outer = true := by
  have hdeclared : ∀ (names : List String) (scope : Scope),
      name ∈ (names.foldr (fun name scope => scope.declare name) scope).names →
        name ∈ names ∨ name ∈ scope.names := by
    intro names scope hname
    induction names with
    | nil => exact .inr hname
    | cons first names ih =>
      rw [foldr_cons, Scope.declare] at hname
      split at hname
      · exact (ih hname).imp_left (mem_cons_of_mem _)
      · rcases mem_cons.1 hname with rfl | hname
        · exact .inl mem_cons_self
        · exact (ih hname).imp_left (mem_cons_of_mem _)
  have hhard : ∀ (names : List String) (scope : Scope),
      (names.foldr (fun name scope => scope.declare name) scope).hard = scope.hard := by
    intro names scope
    induction names with
    | nil => rfl
    | cons first names ih =>
      rw [foldr_cons, Scope.declare]
      split
      · exact ih
      · exact ih
  -- only the innermost scopes are merged; how far one sees is up to the outer one
  cases outer with
  | nil => exact .inr h
  | cons scope outer =>
    cases inner with
    | nil => exact .inr h
    | cons found inner =>
      simp only [Scope.absorb, Scope.sees, hhard, Bool.or_eq_true, contains_iff_mem] at h ⊢
      rcases h with h | h
      · exact (hdeclared _ _ h).imp .inl .inl
      · exact .inr (.inr h)

/-- The code of an interpolation is read in a state of its own, one level deeper, as a part of what
is around the string, and only its variables come back. -/
theorem follows_interpolation (source : String) (line : Nat) :
    Follows d ∅ (Rule.interpolation read source line) Content.ofNodes := by
  intro s hs
  rw [Rule.interpolation, outcome_get_bind]
  cases hlex : lexFrom s.file line source with
  | error failure => exact ⟨.refl s, fun _ => fault_ne_of_lexFrom hlex rfl⟩
  | ok tokens =>
    have hstart : (State.start s.file tokens s.scopes (s.depth + 1)).IsAt d.deeper :=
      ⟨congrArg (· + 1) hs.depth, fun _ => isWellFormed_start (isWellFormed_of_lexFrom hlex) _ _ _⟩
    have hinner := follows_program hread _ hstart
    show s.Ends _ _ (Parser.outcome (do
      let found ← lift ((Rule.program read).run (.start s.file tokens s.scopes (s.depth + 1)))
      set { s with scopes := Scope.absorb found.2.scopes s.scopes }
      return found.1) s)
    rw [Parser.run]
    cases hrun : (Rule.program read).outcome (.start s.file tokens s.scopes (s.depth + 1)) with
    | error failure inner =>
      -- the state of the code is lost, and the one around it has not been touched
      rw [hrun] at hinner
      exact ⟨.refl s, hinner.2⟩
    | ok body inner =>
      rw [hrun] at hinner
      obtain ⟨-, hstatements, haccounts⟩ := hinner
      have hextends := Scope.extends_absorb inner.scopes s.scopes
      refine ⟨⟨rfl, rfl, rfl, hextends, suffix_refl _⟩, trivial, fun seen outer hempty => ?_⟩
      -- the code is accounted for on top of what the string sees
      have hcode := haccounts _ _ (.start d.deeper s.scopes)
      have hseen : ∀ name, Scope.sees name s.scopes = true → seen name :=
        fun name hname => (hempty.sees name hname).resolve_left Content.binds_empty
      refine ⟨hextends.tail_eq.trans hempty.tail, fun name hname => ?_,
        hcode.isScoped.mono fun name hname => hname.imp_right (hseen name), ?_⟩
      · rcases sees_absorb hname with hname | hname
        · exact (hcode.sees name hname).imp_right (hseen name)
        · exact .inr (hseen name hname)
      · -- it is read one level deeper than the string
        refine Content.fits_ofNodes.2 fun node hnode => Node.FitsDeeper.shallower ⟨?_, ?_⟩
        · exact Nat.lt_of_succ_lt (hstatements node hnode).lt
        · exact hcode.fits.nodes node hnode

/-- The segments are those of the parts, with the code read. -/
theorem follows_segments (parts : List StringPart) : Follows d ∅ (Rule.segments read parts)
    (fun segments => .ofNodes (segments.flatMap Segment.nodes))
    fun segments => segments.map Rule.plainText? = parts.map StringPart.text? := by
  induction parts with
  | nil => exact follows_pure (.refl _) rfl
  | cons part parts ih =>
    cases part with
    | text content =>
      exact ih.bind fun segments hsegments => follows_pure (.refl _) (congrArg (_ :: ·) hsegments)
    | code source line =>
      refine .part (follows_interpolation hread source line) fun body _ => ?_
      exact .part ih fun segments hsegments =>
        follows_pure (.refl _) (congrArg (_ :: ·) hsegments)

/-- A literal holds the code of its parts, in order. -/
theorem follows_stringForm {parts : List StringPart} (hparts : d.written → PartsJoined parts) :
    Follows d ∅ (Rule.stringForm read parts) Form.content
      fun form => ∀ line, form.content.Fits d → Node.Fits d ⟨form, line⟩ := by
  refine (follows_segments hread parts).bind fun segments hsegments => ?_
  rw [mapM_plainText?]
  by_cases hcode : none ∈ segments.map Rule.plainText?
  · rw [if_pos hcode]
    exact follows_pure (.refl _) fun line => fits_template line fun hwritten =>
      segmentsJoined_of_parts (hparts hwritten) hsegments hcode
  -- without code the literal is a plain string
  · have hnodes : segments.flatMap Segment.nodes = [] := by
      refine flatMap_eq_nil_iff.2 fun segment hsegment => ?_
      cases segment with
      | text content => rfl
      | code body => exact absurd (mem_map.2 ⟨_, hsegment, rfl⟩) hcode
    rw [if_neg hcode, hnodes]
    exact follows_pure (.refl _) fun line => fits_of_content line rfl

/-- Strings next to each other are one literal. -/
theorem follows_strings {first : List StringPart} (hfirst : d.written → PartsJoined first) :
    Follows d ∅ (Rule.strings read first) Form.content
      fun form => ∀ line, form.content.Fits d → Node.Fits d ⟨form, line⟩ := by
  intro s hs
  -- the place behind the strings is found from the state, and then set
  show s.Ends _ _ (Parser.outcome (modify (fun s => { s with cursor := s.cursor.strings.2 }) >>=
    fun _ => Rule.stringForm read (s.cursor.strings.1.foldl appendParts first)) s)
  exact Follows.after (quiet_move Cursor.tokens_strings)
    (fun _ => follows_stringForm hread fun hwritten =>
      (foldl_appendParts_spec (hfirst hwritten) _).1) s hs

/-! ### Arguments, items and entries -/

omit hread in
/-- Gathering the keywords into one hash keeps them all. -/
theorem standsFor_groupKeywords (args : List Node) :
    (Content.ofNodes (groupKeywords args)).StandsFor d (.ofNodes args) := by
  induction args with
  | nil => exact .refl _
  | cons arg others ih =>
    rw [groupKeywords]
    split
    · -- the hash holds the keywords, and the rest are the other arguments
      have hhash := @Content.StandsFor.node d
        ⟨.hash (arg :: others.filter Node.isKeywordEntry) false, arg.line⟩ rfl
      refine (hhash.append (.refl (.ofNodes (others.filter (!·.isKeywordEntry))))).trans ?_
      refine @Content.StandsFor.ofNodes _ _ ((arg :: others.filter Node.isKeywordEntry) ++
        others.filter (!·.isKeywordEntry)) fun node => ?_
      simp only [mem_cons, mem_append, mem_filter, Bool.not_eq_true', or_assoc]
      cases node.isKeywordEntry <;> simp
    · exact (Content.StandsFor.refl (.ofNode arg)).append ih

/-- Each argument holds what it was read from. -/
theorem follows_moreArguments : Follows d ∅ (Rule.moreArguments read) Content.ofNodes
    fun args => ∀ arg ∈ args, arg.IsItem d := by
  refine .after (quiet_eat _) fun taken => ?_
  split
  · refine .after quiet_skipNewlines fun _ => .part (hread d .argument) fun arg harg => ?_
    exact .part (hread d .moreArguments) fun others hothers =>
      follows_pure (.refl _) (forall_mem_cons.2 ⟨harg, hothers⟩)
  · exact follows_pure (.refl _) (forall_mem_nil _)

/-- Behind each comma an item, up to the closing token. -/
theorem follows_moreItems (close : Token) : Follows d ∅ (Rule.moreItems read close) Content.ofNodes
    fun items => ∀ item ∈ items, item.IsItem d := by
  refine .after quiet_skipNewlines fun _ => .after (quiet_eat _) fun taken => ?_
  split
  · refine .after quiet_skipNewlines fun _ => .after (quiet_isAt _) fun closes => ?_
    split
    · exact follows_pure (.refl _) (forall_mem_nil _)
    · refine .part (hread d .argument) fun item hitem => ?_
      exact .part (hread d (.moreItems close)) fun others hothers =>
        follows_pure (.refl _) (forall_mem_cons.2 ⟨hitem, hothers⟩)
  · exact follows_pure (.refl _) (forall_mem_nil _)

/-- The elements stand one level deeper, and the keywords among them in a hash. -/
theorem follows_items (close : Token) (closeText : String) :
    Follows d ∅ (Rule.items read close closeText) Content.ofNodes
      fun items => ∀ item ∈ items, item.IsItem d := by
  refine .allowingDo (.after quiet_skipNewlines fun _ => .after (quiet_isAt _) fun closes => ?_)
  extract_lets rest
  have hrest : ∀ found, (∀ item ∈ found, item.IsItem d) → Follows d (.ofNodes found) (rest found)
      Content.ofNodes fun items => ∀ item ∈ items, item.IsItem d :=
    fun found hfound => .after (quiet_expect _ _) fun _ =>
      follows_pure (standsFor_groupKeywords found) (isItem_groupKeywords hfound)
  split
  · exact hrest [] (forall_mem_nil _)
  · refine .part (hread d .argument) fun item hitem => ?_
    exact .part (hread d (.moreItems close)) fun others hothers =>
      hrest (item :: others) (forall_mem_cons.2 ⟨hitem, hothers⟩)

theorem follows_commandArguments : Follows d ∅ (Rule.commandArguments read) Content.ofNodes := by
  refine .leavingDo (.part (hread d .argument) fun arg _ => ?_)
  refine .part (hread d .moreArguments) fun others _ => ?_
  exact follows_pure (standsFor_groupKeywords (arg :: others)) trivial

omit hread in
theorem quiet_startsArgument : Quiet d Rule.startsArgument :=
  quiet_current.bind fun _ => (quiet_peek _).bind fun _ => quiet_pure _

/-- Arguments that are not there hold nothing. -/
theorem follows_arguments? :
    Follows d ∅ (Rule.arguments? read) (fun args => .ofNodes (args.getD [])) := by
  refine .after quiet_isAtCallParen fun paren => ?_
  split
  · refine .after quiet_advance fun _ => ?_
    exact (follows_items hread _ _).bind fun args _ => follows_pure (.refl _) trivial
  · refine .after quiet_startsArgument fun starts => ?_
    split
    · exact (follows_commandArguments hread).bind fun args _ => follows_pure (.refl _) trivial
    · exact follows_pure (.refl _) trivial

omit hread in
/-- A label holds nothing, so that its pair holds the value. -/
theorem standsFor_label (key : String) (value : Node) (line : Nat) :
    (Content.ofNode (.pair ⟨.sym key, line⟩ value line)).StandsFor d (.ofNode value) := by
  refine (Content.StandsFor.node (.pair ⟨.sym key, line⟩ value line) rfl).trans ?_
  exact (Content.StandsFor.node ⟨.sym key, line⟩ rfl).append (.refl (.ofNode value))

/-- A key is read at the depth of the hash, a value one level deeper. -/
theorem follows_entry :
    Follows d ∅ (Rule.entry read) Content.ofNode fun entry => entry.IsEntry d := by
  refine .after quiet_current fun here => ?_
  split
  next key htoken =>
    refine .after quiet_advance fun _ => .after quiet_skipNewlines fun _ => ?_
    exact (hread d .argumentValue).bind fun value hvalue => follows_pure
      (standsFor_label key value here.line) (forall_mem_singleton.2 hvalue.hasRoomDeeper)
  · refine .after (quiet_eat _) fun taken => ?_
    split
    · exact (hread d .ternary).bind fun value _ =>
        follows_pure (.node ⟨.doubleSplat value, here.line⟩ rfl) (forall_mem_nil _)
    · refine (hread d .ternary).bind fun key _ => .after quiet_skipNewlines fun _ => ?_
      refine .after (quiet_expect _ _) fun _ => .after quiet_skipNewlines fun _ => ?_
      -- the value is read one level deeper, the key is not
      exact .part (hread d .argumentValue) fun value hvalue => follows_pure
        (.node (.pair key value here.line) rfl) (forall_mem_singleton.2 hvalue.hasRoomDeeper)

theorem follows_moreEntries : Follows d ∅ (Rule.moreEntries read) Content.ofNodes
    fun entries => ∀ entry ∈ entries, entry.IsEntry d := by
  refine .after quiet_skipNewlines fun _ => .after (quiet_eat _) fun taken => ?_
  split
  · refine .after quiet_skipNewlines fun _ => .after (quiet_isAt _) fun closes => ?_
    split
    · exact follows_pure (.refl _) (forall_mem_nil _)
    · refine .part (follows_entry hread) fun entry hentry => ?_
      exact .part (hread d .moreEntries) fun others hothers =>
        follows_pure (.refl _) (forall_mem_cons.2 ⟨hentry, hothers⟩)
  · exact follows_pure (.refl _) (forall_mem_nil _)

theorem follows_entries : Follows d ∅ (Rule.entries read) Content.ofNodes
    fun entries => ∀ entry ∈ entries, entry.IsEntry d := by
  refine .allowingDo (.after quiet_skipNewlines fun _ => .after (quiet_isAt _) fun closes => ?_)
  extract_lets rest
  have hrest : ∀ found, (∀ entry ∈ found, entry.IsEntry d) → Follows d (.ofNodes found) (rest found)
      Content.ofNodes fun entries => ∀ entry ∈ entries, entry.IsEntry d :=
    fun found hfound => .after (quiet_expect _ _) fun _ => follows_pure (.refl _) hfound
  split
  · exact hrest [] (forall_mem_nil _)
  · refine .part (follows_entry hread) fun first hfirst => ?_
    exact .part (hread d .moreEntries) fun others hothers =>
      hrest (first :: others) (forall_mem_cons.2 ⟨hfirst, hothers⟩)

/-! ### Bodies and clauses -/

theorem follows_moreClasses : Follows d ∅ (Rule.moreClasses read) Content.ofNodes := by
  refine .after (quiet_eat _) fun taken => ?_
  split
  · refine .after quiet_skipNewlines fun _ => .after quiet_current fun here => ?_
    split
    · exact follows_pure (.refl _) trivial
    · refine .part (hread d .ternary) fun found _ => ?_
      exact .part (hread d .moreClasses) fun others _ => follows_pure (.refl _) trivial
  · exact follows_pure (.refl _) trivial

omit hread in
/-- The variable of a clause is a target, and a plain name is declared. -/
theorem follows_rescueBinder : Follows d ∅ Rule.rescueBinder Node.asTarget := by
  refine .after quiet_line fun line => .after quiet_next fun token => ?_
  split
  · exact follows_declare_target _ line
  · exact follows_pure (.node ⟨.var _ _, line⟩ rfl) trivial
  · exact follows_pure (.node ⟨.var _ _, line⟩ rfl) trivial
  · exact (fails_fail fun _ => Fault.noConfusion).follows

/-- The classes are read before the variable is declared, the body behind it. -/
theorem follows_rescueClause : Follows d ∅ (Rule.rescueClause read) Rescue.content := by
  refine .after quiet_current fun here => ?_
  extract_lets rest
  -- the rest of the clause, with the classes accounted for
  have hrest : ∀ classes, Follows d (.ofNodes classes) (rest classes) Rescue.content := by
    intro classes
    refine .after (quiet_eat _) fun arrow => ?_
    extract_lets body
    have hbody : ∀ binder, Follows d (.ofNodes classes ++ Option.elim binder ∅ Node.asTarget)
        (body binder) Rescue.content := fun binder =>
      .after (quiet_eat _) fun _ => .part (hread d (.statements _)) fun _ _ =>
        follows_pure (.refl _) trivial
    split
    · exact .part follows_rescueBinder fun binder _ => hbody (some binder)
    · rw [← Content.append_empty (.ofNodes classes)]
      exact hbody none
  split
  · exact hrest []
  · refine .part (hread d .ternary) fun first _ => .part (hread d .moreClasses) fun others _ => ?_
    exact hrest (first :: others)

/-- Clauses follow one another. -/
theorem follows_rescues : Follows d ∅ (Rule.rescues read) (.all Rescue.content) := by
  refine .after (quiet_eat _) fun taken => ?_
  split
  · refine .part (follows_rescueClause hread) fun clause _ => ?_
    exact .part (hread d .rescues) fun others _ => follows_pure (.refl _) trivial
  · exact follows_pure (.refl _) trivial

/-- Without the keyword there are no statements. -/
theorem follows_statementsBehind? (keyword : String) (stops : List String) :
    Follows d ∅ (Rule.statementsBehind? read keyword stops)
      (fun body => .ofNodes (body.getD [])) := by
  refine .after (quiet_eat _) fun taken => ?_
  split
  · exact (hread d (.statements stops)).bind fun body _ => follows_pure (.refl _) trivial
  · exact follows_pure (.refl _) trivial

/-- The parts of a body are held in the order in which they are read. -/
theorem follows_clauses : Follows d ∅ (Rule.clauses read) (fun found => found.form.content) := by
  refine .part (hread d (.statements _)) fun body _ => .part (hread d .rescues) fun rescues _ => ?_
  refine .part (follows_statementsBehind? hread _ _) fun otherwise _ => ?_
  refine .part (follows_statementsBehind? hread _ _) fun ensure _ => ?_
  refine .after (quiet_expect _ _) fun _ => follows_pure ?_ trivial
  rw [Content.append_assoc]
  exact .refl _

/-- A body with clauses is the one statement that holds them. -/
theorem follows_bodyToEnd : Follows d ∅ (Rule.bodyToEnd read) Content.ofNodes := by
  refine .after quiet_line fun line => (follows_clauses hread).bind fun found _ => ?_
  refine follows_pure ?_ trivial
  split
  next hplain =>
    -- without clauses the form holds nothing but the body
    obtain ⟨body, rescues, otherwise, ensure⟩ := found
    simp only [Rule.Clauses.isPlain, Bool.and_eq_true, List.isEmpty_iff, Option.isNone_iff_eq_none]
      at hplain
    obtain ⟨⟨rfl, rfl⟩, rfl⟩ := hplain
    show (Content.ofNodes body).StandsFor d (.ofNodes body ++ ∅ ++ ∅)
    rw [Content.append_empty, Content.append_empty]
    exact .refl _
  · exact .node ⟨found.form, line⟩ rfl

/-! ### Parameters and blocks -/

omit hread in
theorem quiet_optionalName : Quiet d Rule.optionalName := by
  refine quiet_current.bind fun here => ?_
  split
  · exact quiet_advance.bind fun _ => quiet_pure _
  · exact quiet_pure _

theorem follows_parenParams : Follows d ∅ (Rule.parenParams read) paramsContent :=
  (hread d (.params .paren)).bind fun _ _ =>
    .after (quiet_expect _ _) fun _ => follows_pure (.refl _) trivial

omit hread in
/-- The content of a parameter may bind its name before it is declared. -/
theorem follows_param_of_name {param : Param} {names : List String} (nodes : List Node)
    (h : param.content = ⟨names, [], nodes, []⟩) :
    Follows d (.ofNodes nodes) (pure param) Param.content := by
  refine follows_pure ?_ trivial
  rw [h]
  exact ⟨fun name hname => hname.imp_left nofun,
    fun visible hvisible => ⟨nofun, hvisible.nodes, nofun⟩, fun hfits => ⟨hfits.nodes, nofun⟩⟩

/-- A default is read before the name of its parameter is declared. -/
theorem follows_param : Follows d ∅ (Rule.param read) Param.content := by
  refine .after (quiet_eat _) fun rest => ?_
  split
  · exact .after quiet_optionalName fun name => follows_param_of_name [] rfl
  refine .after (quiet_eat _) fun keywordRest => ?_
  split
  · exact .after quiet_optionalName fun name => follows_param_of_name [] rfl
  refine .after (quiet_eat _) fun block => ?_
  split
  · exact .after quiet_takeWord fun name => follows_param_of_name [] rfl
  refine .after (quiet_eat _) fun paren => ?_
  split
  · refine (follows_parenParams hread).bind fun params _ => follows_pure ?_ trivial
    rw [Param.content]
    exact .refl _
  -- without a sign it is a keyword or a plain name
  refine .after quiet_current fun here => ?_
  split
  · refine .after quiet_advance fun _ => .after quiet_current fun behind => ?_
    split
    · exact follows_param_of_name [] rfl
    · exact (hread d .ternary).bind fun default _ => follows_param_of_name _ rfl
  · refine .after quiet_takeWord fun name => .after (quiet_eat _) fun taken => ?_
    split
    · exact (hread d .ternary).bind fun default _ => follows_param_of_name _ rfl
    · exact follows_param_of_name [] rfl

omit hread in
/-- A parameter with a name binds it. -/
theorem binds_of_name? {param : Param} {name : String} (h : param.name? = some name) :
    param.content.Binds name := by
  unfold Param.name? at h
  split at h
  case h_8 => cases h
  case h_6 | h_7 =>
    rw [Param.content, h]
    exact .inl (mem_singleton_self name)
  all_goals
    cases h
    rw [Param.content]
    exact .inl (mem_singleton_self name)

/-- The parameters before it are known in the default of the next one. -/
theorem follows_params (stop : ParamsEnd) : Follows d ∅ (Rule.params read stop) paramsContent := by
  refine .after quiet_skipNewlines fun _ => .after quiet_current fun here => ?_
  split
  · exact follows_pure (.refl _) trivial
  refine (follows_param hread).bind fun first _ => ?_
  extract_lets rest
  have hrest : ∀ u, Follows d first.content (rest u) paramsContent := by
    intro u
    refine .after quiet_skipNewlines fun _ => .after (quiet_eat _) fun taken => ?_
    split
    · exact .part (hread d (.params stop)) fun others _ => follows_pure (.refl _) trivial
    · rw [← Content.append_empty first.content]
      exact follows_pure (.refl _) trivial
  -- the name of the parameter, if it has one, is declared behind it
  cases hname : first.name? with
  | none => exact hrest ()
  | some name => exact (follows_declare (binds_of_name? hname)).bind fun _ _ => hrest ()

theorem follows_bracedBody : Follows d ∅ (Rule.bracedBody read) Content.ofNodes :=
  (Follows.allowingDo (hread d (.statements []))).bind fun _ _ =>
    .after (quiet_expect _ _) fun _ => follows_pure (.refl _) trivial

/-- The parameters of a block are declared from left to right. -/
theorem follows_blockParams : Follows d ∅ (Rule.blockParams read) paramsContent := by
  refine .after (quiet_eat _) fun empty => ?_
  split
  · exact follows_pure (.refl _) trivial
  refine .after (quiet_eat _) fun opens => ?_
  split
  · refine (Follows.closedByPipe (hread d (.params .pipe))).bind fun found _ => ?_
    exact .after (quiet_expect _ _) fun _ => follows_pure (.refl _) trivial
  · exact follows_pure (.refl _) trivial

omit hread in
/-- What is made of a result behind it may as well be made outside of the scope. -/
theorem withScope_map {α β : Type} (hard : Bool) (p : Parser α) (f : α → β) :
    withScope hard (p >>= fun a => pure (f a)) = withScope hard p >>= fun a => pure (f a) := by
  unfold withScope
  rw [bind_assoc]
  refine bind_congr fun _ => funext fun s => ?_
  simp only [tryFinally, Functor.map, EStateM.map, tryFinally', bind, EStateM.bind]
  cases p s <;> rfl

omit hread in
/-- Parameters and a body in a scope of their own are a region, and so is the node made of them. -/
theorem follows_region {params : Parser (List Param)} {body : Parser (List Node)} {hard : Bool}
    {node : List Param → List Node → Node}
    (hparams : Follows d ∅ params paramsContent)
    (hbody : Follows d ∅ body Content.ofNodes)
    (hnode : ∀ params body, (Content.ofNode (node params body)).StandsFor d
      (c ++ .ofRegion ⟨hard, params, body⟩)) :
    Follows d c (withScope hard do return node (← params) (← body)) Content.ofNode := by
  have hpair : Follows d ∅ (do return (← params, ← body))
      (fun found => (Region.mk hard found.1 found.2).content) :=
    hparams.bind fun params _ => .part hbody fun body _ => follows_pure (.refl _) trivial
  -- the node is made when the scope is left
  have hmap : (do return node (← params) (← body)) =
      (do return (← params, ← body)) >>= fun found => pure (node found.1 found.2) := by
    simp only [bind_assoc, pure_bind]
  rw [hmap, withScope_map]
  refine (follows_withScope hpair fun _ => rfl).bind fun found _ => ?_
  exact follows_pure (hnode found.1 found.2) trivial

/-- The call of a block stands outside of it. -/
theorem follows_block (found : Node) :
    Follows d (.ofNode found) (Rule.block read found) Content.ofNode := by
  have hregion : ∀ body, Follows d ∅ body Content.ofNodes →
      Follows d (.ofNode found) (withScope false do
        return ⟨.block found (← Rule.blockParams read) (← body), found.line⟩) Content.ofNode :=
    fun body hbody => follows_region (follows_blockParams hread) hbody fun params body =>
      .of_fits ⟨.block found params body, found.line⟩ (fits_block found.line)
  refine .after (quiet_isAt _) fun braces => .after quiet_advance fun _ => ?_
  cases braces with
  | true => exact hregion _ (follows_bracedBody hread)
  | false => exact hregion _ (.allowingDo (follows_bodyToEnd hread))

/-- The parameters of a lambda. -/
def lambdaParams (read : Reader) : Parser (List Param) := do
  if ← eat .lparen then Rule.parenParams read else read (.params .body)

/-- The body of a lambda, in either form. -/
def lambdaBody (read : Reader) : Parser (List Node) := do
  if ← eat .lbrace then Rule.bracedBody read
  else do
    expectWord "do"
    allowingDo (Rule.bodyToEnd read)

omit hread in
/-- A lambda, cut into its parameters and its body. -/
theorem lambda_eq (read : Reader) (line : Nat) : Rule.lambda read line = withScope false do
    return ⟨.lambda (← lambdaParams read) (← lambdaBody read), line⟩ := by
  rw [Rule.lambda, lambdaParams, lambdaBody, bind_assoc]
  congr 1
  refine bind_congr fun paren => ?_
  cases paren
  all_goals
    refine bind_congr fun params => ?_
    rw [bind_assoc]
    refine bind_congr fun brace => ?_
    cases brace with
    | true => rfl
    | false => simp only [Bool.false_eq_true, if_false, bind_assoc]

/-- The names of a lambda are those of its scope and of the scopes around it. -/
theorem follows_lambda (line : Nat) : Follows d ∅ (Rule.lambda read line) Content.ofNode := by
  rw [lambda_eq]
  refine follows_region ?_ ?_ fun params body => .node ⟨.lambda params body, line⟩ rfl
  · refine .after (quiet_eat _) fun paren => ?_
    split
    · exact follows_parenParams hread
    · exact hread d (.params .body)
  · refine .after (quiet_eat _) fun brace => ?_
    split
    · exact follows_bracedBody hread
    · exact .after (quiet_expect _ _) fun _ => .allowingDo (follows_bodyToEnd hread)

/-! ### Calls -/

/-- What is read behind a receiver, if there is one, makes a call on it. -/
theorem follows_call {receiver : Option Node} {name : String}
    (hname : d.written → receiver = none → name ≠ "") (safe : Bool) (line : Nat) :
    Follows d (.ofNodes receiver.toList) (Rule.call read receiver name safe line)
      Content.ofNode := by
  refine .after quiet_isAtCallParen fun paren => .part (follows_arguments? hread) fun args _ => ?_
  refine Follows.standsFor (e := .ofNode ⟨.call receiver name (args.getD []) safe, line⟩) ?_
    (.of_fits ⟨.call receiver name (args.getD []) safe, line⟩ fun hfits =>
      fits_call safe line hname hfits.nodes)
  refine .after (quiet_isAt _) fun brace => .after (quiet_isAt _) fun keyword => ?_
  refine .after quiet_get fun s => ?_
  split
  · exact follows_block hread _
  · exact follows_pure (.refl _) trivial

/-- A call on a value. -/
theorem follows_call_some (receiver : Node) (name : String) (safe : Bool) (line : Nat) :
    Follows d (.ofNode receiver) (Rule.call read (some receiver) name safe line) Content.ofNode :=
  follows_call hread (by rintro _ ⟨⟩) safe line

omit hread in
theorem quiet_methodName : Quiet d Rule.methodName := by
  refine quiet_current.bind fun here => ?_
  split
  · exact quiet_advance.bind fun _ => quiet_pure _
  · exact quiet_advance.bind fun _ => quiet_pure _
  · exact quiet_pure _
  · exact (fails_expected _).quiet

/-- A call holds its receiver first. -/
theorem follows_callOn (receiver : Node) (safe : Bool) :
    Follows d (.ofNode receiver) (Rule.callOn read receiver safe) Content.ofNode := by
  refine .after quiet_advance fun _ => .after quiet_skipNewlines fun _ => ?_
  refine .after quiet_line fun line => .after quiet_methodName fun name => ?_
  exact follows_call_some hread receiver name safe line

theorem follows_lookedUp (scope : Node) :
    Follows d (.ofNode scope) (Rule.lookedUp read scope) Content.ofNode := by
  refine .after quiet_advance fun _ => .after quiet_current fun here => ?_
  refine .after (quiet_peek 1) fun behind => ?_
  split
  · refine .after quiet_advance fun _ => ?_
    split
    · exact follows_call_some hread scope _ _ _
    · exact follows_node rfl (by rfl) _
  · exact .after quiet_advance fun _ => follows_call_some hread scope _ _ _
  · exact (fails_expected _).follows

theorem follows_indexed (receiver : Node) :
    Follows d (.ofNode receiver) (Rule.indexed read receiver) Content.ofNode := by
  refine .after quiet_line fun line => .after quiet_advance fun _ => ?_
  exact .part (follows_items hread _ _) fun args _ => follows_node rfl (by rfl) _

/-- Each link holds what was read before it. -/
theorem follows_chain (node : Node) :
    Follows d (.ofNode node) (Rule.chain read node) Content.ofNode := by
  refine .after quiet_get fun s => ?_
  extract_lets behind rest
  -- what is chained here, also behind line ends that were skipped
  have hrest : ∀ u, Follows d (.ofNode node) (rest u) Content.ofNode := by
    intro u
    refine .after quiet_current fun here => ?_
    split
    · exact (follows_callOn hread node false).bind fun found _ => hread d (.chain found)
    · exact (follows_callOn hread node true).bind fun found _ => hread d (.chain found)
    · exact (follows_lookedUp hread node).bind fun found _ => hread d (.chain found)
    · split
      · exact follows_pure (.refl _) trivial
      · exact (follows_indexed hread node).bind fun found _ => hread d (.chain found)
    · exact follows_pure (.refl _) trivial
  split
  · exact .after quiet_skipNewlines hrest
  · exact hrest ()

/-! ### Conditionals and loops -/

theorem follows_header : Follows d ∅ (Rule.header read) Content.ofNode := by
  refine (hread d .condition).bind fun condition _ => .after quiet_skipTerminators fun _ => ?_
  exact .after (quiet_eat _) fun _ => follows_pure (.refl _) trivial

theorem follows_conditional (line : Nat) :
    Follows d ∅ (Rule.conditional read line) Content.ofNode := by
  refine (follows_header hread).bind fun condition _ => ?_
  refine .part (hread d (.statements _)) fun body _ => ?_
  exact .part (hread d .otherwise) fun otherwise _ => follows_node rfl (by rfl) line

theorem follows_otherwise :
    Follows d ∅ (Rule.otherwise read) (fun body => .ofNodes (body.getD [])) := by
  refine .after quiet_line fun line => .after (quiet_eat _) fun taken => ?_
  split
  · exact (follows_conditional hread line).bind fun found _ => follows_pure (.refl _) trivial
  · refine (follows_statementsBehind? hread _ _).bind fun found _ => ?_
    exact .after (quiet_expect _ _) fun _ => follows_pure (.refl _) trivial

theorem follows_unlessThen (line : Nat) :
    Follows d ∅ (Rule.unlessThen read line) Content.ofNode := by
  refine (follows_header hread).bind fun condition _ => ?_
  refine .part (hread d (.statements _)) fun body _ => ?_
  refine .part (follows_statementsBehind? hread _ _) fun otherwise _ => ?_
  exact .after (quiet_expect _ _) fun _ => follows_node rfl (by rfl) line

theorem follows_whenBranch :
    Follows d ∅ (Rule.whenBranch read) (fun found => .ofNodes found.nodes) := by
  refine .part (hread d .argument) fun first _ => .part (hread d .moreArguments) fun others _ => ?_
  refine .after quiet_skipTerminators fun _ => .after (quiet_eat _) fun _ => ?_
  exact .part (hread d (.statements _)) fun body _ => follows_pure (.refl _) trivial

/-- The branches of a `case` in their order. -/
theorem follows_whens : Follows d ∅ (Rule.whens read)
    (fun branches => .ofNodes (branches.flatMap When.nodes)) := by
  refine .after (quiet_eat _) fun taken => ?_
  split
  · refine .part (follows_whenBranch hread) fun branch _ => ?_
    exact .part (hread d .whens) fun others _ => follows_pure (.refl _) trivial
  · exact follows_pure (.refl _) trivial

/-- The subject, the branches and the rest, in this order. -/
theorem follows_caseOf (line : Nat) : Follows d ∅ (Rule.caseOf read line) Content.ofNode := by
  refine .after quiet_current fun here => ?_
  extract_lets rest
  have hrest : ∀ subject, Follows d (.ofNodes subject.toList) (rest subject) Content.ofNode := by
    intro subject
    refine .after quiet_skipTerminators fun _ => .part (hread d .whens) fun branches _ => ?_
    split
    · exact (fails_expected _).bind
    · refine .part (follows_statementsBehind? hread _ _) fun otherwise _ => ?_
      exact .after (quiet_expect _ _) fun _ => follows_node rfl (by rfl) line
  split
  · exact hrest none
  · exact (hread d .condition).bind fun subject _ => hrest (some subject)

theorem follows_loopHeader : Follows d ∅ (Rule.loopHeader read) Content.ofNode := by
  refine (Follows.leavingDo (hread d .condition)).bind fun found _ => ?_
  refine .after (quiet_eat _) fun _ => .after quiet_skipTerminators fun _ => ?_
  exact follows_pure (.refl _) trivial

theorem follows_loopBody : Follows d ∅ (Rule.loopBody read) Content.ofNodes :=
  (hread d (.statements _)).bind fun _ _ =>
    .after (quiet_expect _ _) fun _ => follows_pure (.refl _) trivial

/-- A loop holds its condition and then its body. -/
theorem follows_loop (negated : Bool) (line : Nat) :
    Follows d ∅ (Rule.loop read negated line) Content.ofNode := by
  refine (follows_loopHeader hread).bind fun condition _ => ?_
  exact .part (follows_loopBody hread) fun body _ => follows_node rfl (by rfl) line

/-- The name of the loop is declared before what it runs over is read. -/
theorem follows_forEach (line : Nat) : Follows d ∅ (Rule.forEach read line) Content.ofNode := by
  refine .after quiet_line fun binderLine => .after quiet_takeWord fun name => ?_
  refine Follows.standsFor (e := .ofNames [name]) ?_ (.names [name])
  refine (follows_declare (.inl (mem_singleton_self name))).bind fun _ _ => ?_
  refine .after (quiet_expect _ _) fun _ => ?_
  refine .part (follows_loopHeader hread) fun iterated _ => ?_
  exact .part (follows_loopBody hread) fun body _ => follows_node rfl (by rfl) line

/-! ### Definitions -/

omit hread in
/-- What gets a method is `self` or a constant, and holds nothing. -/
theorem follows_singleton? (line : Nat) :
    Follows d ∅ (Rule.singleton? line) (fun found => .ofNodes found.toList) := by
  refine .after (quiet_peek 1) fun behind => ?_
  split
  · exact follows_pure (.refl _) trivial
  refine .after quiet_current fun here => ?_
  extract_lets found rest
  have hfound : (Content.ofNodes found.toList).StandsFor d ∅ := by
    unfold found
    split
    · exact .node ⟨.atom .selfValue, line⟩ rfl
    · exact .node ⟨.const none _, line⟩ rfl
    · exact .refl _
  have hrest : ∀ u, Follows d ∅ (rest u) (fun found => .ofNodes found.toList) :=
    fun u => follows_pure hfound trivial
  split
  · exact .after quiet_advance fun _ => .after quiet_advance hrest
  · exact hrest ()

omit hread in
theorem quiet_definedName : Quiet d Rule.definedName := by
  refine quiet_next.bind fun token => ?_
  extract_lets rest
  have hrest : ∀ name, Quiet d (rest name) := by
    intro name
    refine quiet_current.bind fun here => (quiet_peek 1).bind fun behind => ?_
    split
    · exact quiet_advance.bind fun _ => quiet_pure _
    · exact quiet_pure _
  split
  · exact hrest _
  · exact hrest _
  · exact hrest _
  · exact (fails_fail fun _ => Fault.noConfusion).quiet.bind hrest

theorem follows_methodParams : Follows d ∅ (Rule.methodParams read) paramsContent := by
  refine .after (quiet_eat _) fun paren => ?_
  split
  · exact follows_parenParams hread
  refine .after quiet_current fun here => ?_
  split
  case h_4 => exact hread d (.params .line)
  all_goals exact follows_pure (.refl _) trivial

/-- Nothing of the scopes around is known in a method. -/
theorem follows_method (line : Nat) : Follows d ∅ (Rule.method read line) Content.ofNode := by
  refine (follows_singleton? line).bind fun singleton _ => .after quiet_definedName fun name => ?_
  exact follows_region (follows_methodParams hread) (follows_bodyToEnd hread) fun params body =>
    .node ⟨.method singleton name params body, line⟩ rfl

omit hread in
theorem quiet_constantName : Quiet d Rule.constantName := by
  refine quiet_next.bind fun token => ?_
  split
  · exact quiet_pure _
  · exact (fails_fail fun _ => Fault.noConfusion).quiet

/-- A path is held by the constant that goes on with it. -/
theorem follows_constPath (path : Node) (line : Nat) :
    Follows d (.ofNode path) (Rule.constPath read path line) Content.ofNode := by
  refine .after (quiet_eat _) fun taken => ?_
  split
  · refine .after quiet_constantName fun name => ?_
    exact (hread d (.constPath ⟨.const (some path) name, line⟩ line)).standsFor
      (.node ⟨.const (some path) name, line⟩ rfl)
  · exact follows_pure (.refl _) trivial

theorem follows_definedPath : Follows d ∅ (Rule.definedPath read) Content.ofNode := by
  refine .after quiet_line fun line => .after quiet_constantName fun name => ?_
  exact (hread d (.constPath ⟨.const none name, line⟩ line)).standsFor
    (.node ⟨.const none name, line⟩ rfl)

/-- A body in a scope of its own, behind a keyword and a path. -/
theorem follows_bodyRegion : Follows d c (withScope true (Rule.bodyToEnd read))
    (fun body => c ++ .ofRegion ⟨true, [], body⟩) :=
  follows_withScope (follows_bodyToEnd hread) fun _ => rfl

/-- The class that is extended is read outside the new scope. -/
theorem follows_classDef (line : Nat) : Follows d ∅ (Rule.classDef read line) Content.ofNode := by
  refine (follows_definedPath hread).bind fun path _ => .after (quiet_eat _) fun taken => ?_
  extract_lets rest
  have hrest : ∀ superclass, Follows d (.ofNodes (path :: Option.toList superclass))
      (rest superclass) Content.ofNode :=
    fun superclass => (follows_bodyRegion hread).bind fun body _ => follows_node rfl (by rfl) line
  split
  · exact .part (hread d .expression) fun superclass _ => hrest (some superclass)
  · exact hrest none

theorem follows_moduleDef (line : Nat) : Follows d ∅ (Rule.moduleDef read line) Content.ofNode := by
  refine (follows_definedPath hread).bind fun path _ => ?_
  exact (follows_bodyRegion hread).bind fun body _ => follows_node rfl (by rfl) line

end Rules
end LaneScript
