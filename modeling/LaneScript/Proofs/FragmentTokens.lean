import LaneScript.Proofs.Fragment

/-!
# The tokens of lane programs

A tree of the fragment is read as the tokens it is spelled with.  Every token is read from its
spelling whatever tree it stands in: what a value needs from its surroundings is that the text
behind it ends a lexeme (`endsLexeme`), and that a symbol may start where it starts (`MayStart`).
In turn its last token ends a value, so that the operator behind it is read as one.

* `joined_spelled` — the tokens of a tree join wherever a tree of its role may stand;
* `lex_renderScript` — a written script is read as the tokens of its statements.
-/

namespace LaneScript

open Literal
open List

variable {token : Token} {write : Lead → List Spelled} {context : Context} {next : List Char}
variable {lead : Lead} {indent : Nat} {nodes : List Node} {name : String}

/-! ### Where a tree may start -/

/-- A value may start behind the lead: a symbol may, and no method name is due. -/
structure MayStart (context : Context) (lead : Lead) : Prop where
  follows : lead.follows context
  symbol : (lead.context context).allowsSymbol = true
  dot : (lead.context context).afterDot = false

/-- Behind a bracket or an operator a tree may start at once. -/
theorem mayStart_tight (hvalue : token.endsValue = false) (hdot : token ≠ .dot ∧ token ≠ .safeDot) :
    MayStart ⟨some token, .none⟩ .tight where
  follows := Lead.follows_tight _
  symbol := by simp [Lead.context, Context.allowsSymbol, Context.afterValue, hvalue]
  dot := by simp [Lead.context, Context.afterDot, hdot]

/-- Behind a blank it may start unless a dot is before it. -/
theorem mayStart_blank (hdot : token ≠ .dot ∧ token ≠ .safeDot) (gap : Gap) :
    MayStart ⟨some token, gap⟩ .blank where
  follows := Lead.follows_blank _
  symbol := by simp [Lead.context, Context.allowsSymbol, Gap.isSpaced]
  dot := by simp [Lead.context, Context.afterDot, hdot]

/-- On a new line it may start behind every token but a newline. -/
theorem mayStart_newLine (hnewline : token ≠ .newline) (gap : Gap) (indent : Nat) :
    MayStart ⟨some token, gap⟩ (.newLine indent) where
  follows := by simp [Lead.follows, hnewline]
  symbol := by simp [Lead.context, Context.allowsSymbol, Context.afterValue, Token.endsValue]
  dot := by simp [Lead.context, Context.afterDot]

theorem ne_dot_of_endsValue (h : token.endsValue = true) :
    token ≠ .dot ∧ token ≠ .safeDot ∧ token ≠ .newline := by
  refine ⟨?_, ?_, ?_⟩ <;> rintro rfl <;> exact absurd h (by decide)

/-! ### Joined trees -/

/-- The tokens join wherever a tree of the role may stand, and the last of them ends a value. -/
structure JoinsAs (role : Role) (write : Lead → List Spelled) : Prop where
  text : ∃ text, ∀ lead, spelledChars (write lead) = lead.text.toList ++ text
  joined : ∀ {lead : Lead} {context : Context} {next : List Char}, MayStart context lead →
    (role = .entry → (lead.context context).gap ≠ .lineStart) → endsLexeme next = true →
    Joined context (write lead) next
  last : ∀ lead context,
    ∃ token, contextBehind context (write lead) = ⟨some token, .none⟩ ∧ token.endsValue = true

/-- The tokens join wherever an item of a list may stand. -/
def JoinsAsItem (write : Lead → List Spelled) : Prop :=
  ∀ {lead : Lead} {context : Context} {next : List Char}, MayStart context lead →
    (lead.context context).gap ≠ .lineStart → endsLexeme next = true →
    Joined context (write lead) next

theorem JoinsAs.asItem {role : Role} (h : JoinsAs role write) : JoinsAsItem write :=
  fun hstart hgap hnext => h.joined hstart (fun _ => hgap) hnext

/-- A value is a statement: what must hold at the start of a line holds of it. -/
theorem JoinsAs.asStatement (h : JoinsAs .value write) : JoinsAs .statement write where
  text := h.text
  joined hstart _ hnext := h.joined hstart (fun hrole => absurd hrole (by decide)) hnext
  last := h.last

/-- Behind a blank, the text of a tree starts with the blank. -/
theorem JoinsAs.chars_blank {role : Role} (h : JoinsAs role write) (next : List Char) :
    ∃ tail, spelledChars (write .blank) ++ next = ' ' :: tail := by
  obtain ⟨text, htext⟩ := h.text
  exact ⟨text ++ next, by rw [htext]; simp⟩

/-- One token more in front. -/
theorem joined_cons {p : Spelled} {ps : List Spelled} (hfollows : p.lead.follows context)
    (hlexes : Lexes (p.lead.context context) p.token p.token.spelling.toList
      (spelledChars ps ++ next)) (hrest : Joined ⟨some p.token, .none⟩ ps next) :
    Joined context (p :: ps) next :=
  ⟨hfollows, hlexes, hrest⟩

/-- The marks that are a token wherever they stand. -/
def isBracketOrComma : Token → Bool
  | .lparen | .rparen | .lbracket | .rbracket | .lbrace | .rbrace | .comma => true
  | _ => false

theorem lexes_bracketOrComma (h : isBracketOrComma token = true) (context : Context)
    (next : List Char) : Lexes context token token.spelling.toList next := by
  cases token <;> simp only [isBracketOrComma, Bool.false_eq_true] at h <;>
    simpa [Token.spelling] using lexes_punctuation context (by decide) next

/-- A bracket or a comma joins to anything. -/
theorem joined_mark (htoken : isBracketOrComma token = true) (hfollows : lead.follows context)
    {ps : List Spelled} (hrest : Joined ⟨some token, .none⟩ ps next) :
    Joined context (⟨lead, token⟩ :: ps) next :=
  joined_cons hfollows (lexes_bracketOrComma htoken _ _) hrest

/-- What is joined between parentheses is joined with them. -/
theorem joined_spelledParens (hfollows : lead.follows context) {inner : List Spelled}
    (hinner : Joined ⟨some .lparen, .none⟩ inner (')' :: next)) :
    Joined context (spelledParens lead inner) next := by
  refine joined_mark rfl hfollows (joined_append.2 ⟨?_, ?_⟩)
  · simpa [spelledChars, Token.spelling] using hinner
  · exact joined_mark rfl (Lead.follows_tight _) trivial

/-! #### Lists -/

theorem endsLexeme_spelledMore (indent : Nat) (nodes : List Node) (hnext : endsLexeme next = true) :
    endsLexeme (spelledChars (spelledMore indent nodes) ++ next) = true := by
  cases nodes with
  | nil => exact hnext
  | cons node nodes => simp [spelledMore, spelledChars, Token.spelling, endsLexeme]

/-- Every further item stands behind a comma and a blank. -/
theorem joined_spelledMore (h : ∀ node ∈ nodes, JoinsAsItem (node.spelled indent))
    (hnext : endsLexeme next = true) (context : Context) :
    Joined context (spelledMore indent nodes) next := by
  induction nodes generalizing context with
  | nil => trivial
  | cons node nodes ih =>
    obtain ⟨hnode, hnodes⟩ := forall_mem_cons.1 h
    refine joined_mark rfl (Lead.follows_tight _) (joined_append.2 ⟨?_, ih hnodes _⟩)
    exact hnode (mayStart_blank (by decide) _) (by simp [Lead.context])
      (endsLexeme_spelledMore indent nodes hnext)

theorem joined_spelledList (h : ∀ node ∈ nodes, JoinsAsItem (node.spelled indent))
    (hstart : MayStart context lead) (hgap : (lead.context context).gap ≠ .lineStart)
    (hnext : endsLexeme next = true) :
    Joined context (spelledList indent nodes lead) next := by
  cases nodes with
  | nil => trivial
  | cons node nodes =>
    obtain ⟨hnode, hnodes⟩ := forall_mem_cons.1 h
    refine joined_append.2 ⟨?_, joined_spelledMore hnodes hnext _⟩
    exact hnode hstart hgap (endsLexeme_spelledMore indent nodes hnext)

/-! #### Leaves -/

/-- One token whose spelling is read behind any lead, and which ends a value. -/
theorem joinsAs_token (hvalue : token.endsValue = true)
    (hlexes : ∀ {lead : Lead} {context : Context} {next : List Char}, MayStart context lead →
      endsLexeme next = true → Lexes (lead.context context) token token.spelling.toList next) :
    JoinsAs .value fun lead => [⟨lead, token⟩] where
  text := ⟨token.spelling.toList, fun lead => by simp [spelledChars]⟩
  joined hstart _ hnext := joined_cons hstart.follows (hlexes hstart hnext) trivial
  last _ _ := ⟨token, rfl, hvalue⟩

/-- A name at the start of a line is taken for no comment and no end marker. -/
theorem startsLine_name (hname : isNameText name.toList = true) (hmarker : name ≠ "__END__")
    (context : Context) (hnext : endsLexeme next = true) :
    StartsLine context (name.toList ++ next) := by
  obtain ⟨stem, mark, hparts⟩ := exists_nameParts hname
  refine hparts.startsLine context ?_ (takeWhile_eq_nil_of_endsLexeme (by decide) hnext)
  exact fun h => hmarker (String.toList_inj.1 h)

/-- A name is read as its token. -/
theorem lexes_nameToken (hname : isNameText name.toList = true) (hmarker : name ≠ "__END__")
    (context : Context) (hnext : endsLexeme next = true) :
    Lexes context (nameToken name) (nameToken name).spelling.toList next := by
  have hspelling : (nameToken name).spelling = name := by
    unfold nameToken
    split <;> rfl
  rw [hspelling]
  exact lexes_name hname (startsLine_name hname hmarker context hnext) hnext

theorem ne_marker_of_isCapitalized (h : isCapitalized name = true) : name ≠ "__END__" := by
  rintro rfl
  exact absurd h (by decide +kernel)

/-- Behind every name but an opening word an operator may stand. -/
theorem endsValue_nameToken (h : name ∉ openingWords) : (nameToken name).endsValue = true := by
  unfold nameToken
  split
  · rfl
  · simpa [Token.endsValue] using h

/-- The name is a word of the script. -/
def isWordText (name : String) : Bool :=
  isNameText name.toList && !isCapitalized name && name != "__END__"

theorem lexes_word (hname : isWordText name = true) (hnext : endsLexeme next = true) :
    Lexes context (.word name) name.toList next := by
  simp only [isWordText, Bool.and_eq_true, Bool.not_eq_true', bne_iff_ne] at hname
  obtain ⟨⟨htext, hcapital⟩, hmarker⟩ := hname
  have hlexes := lexes_nameToken htext hmarker context hnext
  simpa [nameToken, hcapital, Token.spelling] using hlexes

theorem exists_digits (n : Nat) : ∃ d ds, (toString n).toList = d :: ds ∧ d.isDigit = true := by
  cases hdigits : Nat.toDigits 10 n with
  | nil => exact absurd hdigits Nat.toDigits_ne_nil
  | cons d ds =>
    have hmem : d ∈ Nat.toDigits 10 n := by rw [hdigits]; exact mem_cons_self
    exact ⟨d, ds, by simp [hdigits], isDigit_of_mem_digits hmem⟩

/-- A negative integer is a sign with the digits right behind it. -/
theorem joinsAs_int {value : Int} (hvalue : value.natAbs < intBound) :
    JoinsAs .value fun lead => spelledInt lead value where
  text := ⟨((⟨.int value, 0⟩ : Node).text 0).toList, fun lead => writes_int value 0 0 lead⟩
  joined {lead context next} hstart _ hnext := by
    have hint : ∀ context, Lexes context (.int value.natAbs) (toString value.natAbs).toList next :=
      fun _ => lexes_int hvalue hnext
    unfold spelledInt
    split
    · refine joined_cons hstart.follows ?_ (joined_cons (Lead.follows_tight _) (hint _) trivial)
      -- The digits touch the minus.
      obtain ⟨d, ds, hdigits, hd⟩ := exists_digits value.natAbs
      have hchars : spelledChars [⟨.tight, .int value.natAbs⟩] ++ next = d :: (ds ++ next) := by
        have hspelling : (Token.int value.natAbs).spelling = toString value.natAbs := rfl
        rw [spelledChars, spelledChars, hspelling, hdigits]
        simp
      rw [hchars]
      simpa [Token.spelling, Operator.text, BinaryOp.text] using lexes_minus _ hd (ds ++ next)
    · exact joined_cons hstart.follows (hint _) trivial
  last lead context := by
    unfold spelledInt
    split
    · exact ⟨.int value.natAbs, rfl, rfl⟩
    · exact ⟨.int value.natAbs, rfl, rfl⟩

/-! #### Operations and calls -/

theorem contextBehind_spelledParens (context : Context) (lead : Lead) (inner : List Spelled) :
    contextBehind context (spelledParens lead inner) = ⟨some .rparen, .none⟩ := by
  rw [spelledParens, ← cons_append, contextBehind_concat]

theorem endsLexeme_blank (token : Token) (ps : List Spelled) (next : List Char) :
    endsLexeme (spelledChars (⟨.blank, token⟩ :: ps) ++ next) = true := by
  simp [spelledChars, endsLexeme]

/-- A value in a place where no line starts. -/
theorem JoinsAs.value (h : JoinsAs .value write) (hstart : MayStart context lead)
    (hnext : endsLexeme next = true) : Joined context (write lead) next :=
  h.joined hstart (fun hrole => absurd hrole (by decide)) hnext

/-- A value, a token between two blanks, and what follows. -/
theorem joined_between {left : Lead → List Spelled} (hleft : JoinsAs .value left)
    (hstart : MayStart context lead)
    (hlexes : ∀ {context : Context} (tail : List Char), context.afterValue = true →
      context.gap ≠ .lineStart → Lexes context token token.spelling.toList (' ' :: tail))
    {ps : List Spelled} (hblank : ∃ tail, spelledChars ps ++ next = ' ' :: tail)
    (hrest : Joined ⟨some token, .none⟩ ps next) :
    Joined context (left lead ++ ⟨.blank, token⟩ :: ps) next := by
  -- The value before the token is what makes it an operator, the blanks are what ends it.
  obtain ⟨last, hbehind, hvalue⟩ := hleft.last lead context
  obtain ⟨tail, htail⟩ := hblank
  refine joined_append.2 ⟨hleft.value hstart (endsLexeme_blank _ _ _), ?_⟩
  rw [hbehind]
  refine joined_cons (Lead.follows_blank _) ?_ hrest
  rw [htail]
  exact hlexes tail (by simpa [Lead.context, Context.afterValue] using hvalue)
    (by simp [Lead.context])

/-- An operator between two values. -/
theorem joinsAs_operation {op : BinaryOp} {left right : Lead → List Spelled}
    (hleft : JoinsAs .value left) (hright : JoinsAs .value right) :
    JoinsAs .value fun lead => spelledOperation lead op left right where
  text := by
    obtain ⟨leftText, hleftText⟩ := hleft.text
    obtain ⟨rightText, hrightText⟩ := hright.text
    refine ⟨(operationText op.text (String.ofList leftText) (String.ofList rightText)).toList,
      fun lead => writes_operation ?_ ?_ op lead⟩
    · simpa using hleftText
    · simpa using hrightText
  joined hstart _ _ := joined_spelledParens hstart.follows
    (joined_between hleft (mayStart_tight rfl (by decide))
      (fun tail hvalue hgap => lexes_binary op hvalue hgap tail) (hright.chars_blank _)
      (hright.value (mayStart_blank (by simp) _) rfl))
  last lead context := by
    refine ⟨.rparen, ?_, rfl⟩
    exact contextBehind_spelledParens context lead _

/-- Parentheses where they are needed. -/
theorem joinsAs_parens (h : JoinsAs .value write) (needed : Bool) :
    JoinsAs .value (spelledParensIf needed write) := by
  cases needed with
  | false => exact h
  | true =>
    refine ⟨?_, fun hstart _ _ => ?_, fun lead context => ⟨.rparen, ?_, rfl⟩⟩
    · obtain ⟨text, htext⟩ := h.text
      exact ⟨'(' :: (text ++ [')']), fun lead => by
        simp [spelledParensIf, spelledChars_spelledParens, htext]⟩
    · exact joined_spelledParens hstart.follows (h.value (mayStart_tight rfl (by decide)) rfl)
    · exact contextBehind_spelledParens context lead _

/-- The arguments of a call: none, or some in parentheses. -/
theorem joinsAs_call {args : List Node} {line : Nat} (hname : isNameText name.toList = true)
    (hmarker : name ≠ "__END__") (hopening : name ∉ openingWords)
    (hwrites : ∀ arg ∈ args, Writes arg) (hargs : ∀ arg ∈ args, JoinsAsItem (arg.spelled indent)) :
    JoinsAs .value ((⟨.call none name args false, line⟩ : Node).spelled indent) where
  text := ⟨_, writes_call hwrites indent⟩
  joined {lead context next} hstart _ hnext := by
    rw [Node.spelled, Form.spelled]
    -- What ends the name is behind the call, or the parenthesis that opens its arguments.
    cases args with
    | nil => exact joined_cons hstart.follows (lexes_nameToken hname hmarker _ hnext) trivial
    | cons arg args =>
      refine joined_cons hstart.follows (lexes_nameToken hname hmarker _ ?_) ?_
      · simp [spelledParens, spelledChars, Token.spelling, endsLexeme]
      · refine joined_spelledParens (Lead.follows_tight _) ?_
        exact joined_spelledList hargs (mayStart_tight rfl (by decide)) (by simp [Lead.context]) rfl
  last lead context := by
    rw [Node.spelled, Form.spelled]
    cases args with
    | nil => exact ⟨nameToken name, rfl, endsValue_nameToken hopening⟩
    | cons arg args =>
      refine ⟨.rparen, ?_, rfl⟩
      rw [contextBehind_cons]
      exact contextBehind_spelledParens _ _ _

/-- What a name needs to be read where it stands. -/
structure NameReads (name : String) : Prop where
  text : isNameText name.toList = true
  marker : name ≠ "__END__"
  opening : name ∉ openingWords

theorem IsMethodName.nameReads (h : IsMethodName name) : NameReads name := by
  obtain ⟨htext, -, hreserved, hmarker⟩ := h
  have hopening : ∀ word ∈ openingWords, word ∈ reservedWords := by decide
  exact ⟨htext, hmarker, fun hmem => hreserved (hopening name hmem)⟩

theorem IsConstantName.nameReads (h : IsConstantName name) : NameReads name := by
  have hlower : ∀ word ∈ openingWords, isCapitalized word = false := by decide +kernel
  obtain ⟨htext, hcapital⟩ := h
  refine ⟨htext, ne_marker_of_isCapitalized hcapital, fun hmem => ?_⟩
  rw [hlower name hmem] at hcapital
  exact Bool.false_ne_true hcapital

theorem nameReads_of_or {P : Prop} (h : IsMethodName name ∨ IsConstantName name ∧ P) :
    NameReads name :=
  h.elim IsMethodName.nameReads fun h => h.1.nameReads

/-- The key of a label is a symbol that is a name. -/
theorem labelKey?_eq_some {key : Node} (h : key.labelKey? = some name) :
    key.form = .sym name ∧ isNameText name.toList = true := by
  unfold Node.labelKey? at h
  split at h
  · rename_i symbol hform
    split at h
    · rename_i hname
      cases h
      exact ⟨hform, hname⟩
    · exact absurd h (by simp)
  · exact absurd h (by simp)

/-- No value is written with a dot in front. -/
theorem head?_text_ne_dot {capitals : Capitals} {node : Node}
    (h : InFragment capitals .value node) (indent : Nat) (next : List Char) :
    ((node.text indent).toList ++ next).head? ≠ some '.' := by
  have hnames : ∀ name : String, isNameText name.toList = true → ∀ tail : List Char,
      (name.toList ++ tail).head? ≠ some '.' := by
    intro name hname tail
    obtain ⟨stem, mark, hparts⟩ := exists_nameParts hname
    obtain ⟨c, cs, hcons, hc⟩ := hparts.exists_cons
    rw [hcons]
    rintro ⟨⟩
    exact absurd hc (by decide)
  have hdigits : ∀ n : Nat, ((toString n).toList ++ next).head? ≠ some '.' := by
    intro n
    obtain ⟨d, ds, hcons, hd⟩ := exists_digits n
    rw [hcons]
    rintro ⟨⟩
    exact absurd hd (by decide)
  -- every other form starts with a quote, a colon, a sign or a bracket
  cases h with
  | @atom atom line hatom =>
    have hall : ∀ atom ∈ [Atom.nilValue, .trueValue, .falseValue, .selfValue],
        isNameText atom.text.toList = true := by
      decide +kernel
    exact hnames atom.text (hall atom hatom) next
  | @int value line _ =>
    cases value with
    | ofNat n => exact hdigits n
    | negSucc n =>
      have htext : toString (Int.negSucc n) = "-" ++ toString (n + 1) := rfl
      simp [Node.text, Form.text, htext]
  | str content line => simp [Node.text, Form.text, stringText]
  | sym name line =>
    rw [Node.text, Form.text, symbolText]
    split <;> simp
  | @const name line _ hname => simpa [Node.text, Form.text, text?] using hnames name hname.1 next
  | array line _ => simp [Node.text, Form.text]
  | @hash entries line _ =>
    cases entries <;> simp [Node.text, Form.text]
  | @call name args line hname _ =>
    rw [Node.text, Form.text, String.toList_append, List.append_assoc]
    exact hnames name (nameReads_of_or hname).text _
  | @keywordCall name args entries line hashLine hname _ _ _ =>
    rw [Node.text, Form.text, String.toList_append, List.append_assoc]
    exact hnames name (nameReads_of_or hname).text _
  | binary line _ _ _ => simp [Node.text, Form.text, operationText, inParens]
  | logical connective line _ _ => simp [Node.text, Form.text, operationText, inParens]
  | ternary line _ _ _ => simp [Node.text, Form.text, inParens]
  | range exclusive line _ _ _ => simp [Node.text, Form.text, inParens]

/-! #### Bodies -/

theorem endsLexeme_newLine (indent : Nat) (text next : List Char) :
    endsLexeme ((Lead.newLine indent).text.toList ++ text ++ next) = true := by
  simp [lineBreak, endsLexeme]

/-- Statements on lines of their own join behind any token but a line end. -/
theorem joined_spelledBody (h : ∀ node ∈ nodes, JoinsAs .statement (node.spelled indent))
    (hstart : MayStart context lead) (hnext : endsLexeme next = true) :
    Joined context (spelledBody indent nodes lead) next := by
  induction nodes generalizing context lead with
  | nil => trivial
  | cons node nodes ih =>
    obtain ⟨hnode, hnodes⟩ := forall_mem_cons.1 h
    obtain ⟨token, hbehind, hvalue⟩ := hnode.last lead context
    -- Each statement is ended by the line break before the next one.
    refine joined_append.2 ⟨?_, ?_⟩
    · refine hnode.joined hstart (fun hrole => absurd hrole (by decide)) ?_
      cases nodes with
      | nil => exact hnext
      | cons other others =>
        obtain ⟨text, htext⟩ := (hnodes other (by simp)).text
        rw [spelledBody, spelledChars_append, htext, List.append_assoc]
        exact endsLexeme_newLine _ _ _
    · rw [hbehind]
      exact ih hnodes (mayStart_newLine (ne_dot_of_endsValue hvalue).2.2 _ _)

/-- Behind statements stands a token that is no line end, if one stood before them. -/
theorem contextBehind_spelledBody (h : ∀ node ∈ nodes, JoinsAs .statement (node.spelled indent))
    (htoken : token ≠ .newline) (lead : Lead) :
    ∃ last, contextBehind ⟨some token, .none⟩ (spelledBody indent nodes lead) = ⟨some last, .none⟩ ∧
      last ≠ .newline := by
  induction nodes generalizing token lead with
  | nil => exact ⟨token, rfl, htoken⟩
  | cons node nodes ih =>
    obtain ⟨hnode, hnodes⟩ := forall_mem_cons.1 h
    obtain ⟨last, hbehind, hvalue⟩ := hnode.last lead ⟨some token, .none⟩
    rw [spelledBody, contextBehind_append, hbehind]
    exact ih hnodes (ne_dot_of_endsValue hvalue).2.2 _

/-- A call and its block. -/
theorem joined_block {call : Lead → List Spelled} (hcall : JoinsAs .value call) {body : List Node}
    (hbody : ∀ node ∈ body, JoinsAs .statement (node.spelled (indent + 1)))
    (hstart : MayStart context lead) (hnext : endsLexeme next = true) :
    Joined context (call lead ++ ⟨.blank, .word "do"⟩ ::
      (spelledBody (indent + 1) body (.newLine (indent + 1)) ++
        [⟨.newLine indent, .word "end"⟩])) next := by
  obtain ⟨token, hbehind, -⟩ := hcall.last lead context
  have hdo : Token.word "do" ≠ .newline := by simp
  obtain ⟨last, hlast, hnewline⟩ := contextBehind_spelledBody hbody hdo (.newLine (indent + 1))
  have hend : endsLexeme (spelledChars [⟨.newLine indent, .word "end"⟩] ++ next) = true := by
    simp [spelledChars, lineBreak, endsLexeme]
  -- A line break comes behind `do`, whether there are statements or not.
  have hlines : endsLexeme (spelledChars (spelledBody (indent + 1) body (.newLine (indent + 1)) ++
      [⟨.newLine indent, .word "end"⟩]) ++ next) = true := by
    cases body with
    | nil => exact hend
    | cons node nodes =>
      obtain ⟨text, htext⟩ := (hbody node (by simp)).text
      rw [spelledBody, spelledChars_append, spelledChars_append, htext]
      simp [lineBreak, endsLexeme]
  refine joined_append.2 ⟨hcall.value hstart (endsLexeme_blank _ _ _), ?_⟩
  rw [hbehind]
  refine joined_cons (Lead.follows_blank _) (lexes_word (by decide +kernel) hlines)
    (joined_append.2 ⟨?_, ?_⟩)
  · exact joined_spelledBody hbody (mayStart_newLine (by simp) _ _) hend
  · rw [hlast]
    exact joined_cons (mayStart_newLine hnewline _ indent).follows
      (lexes_word (by decide +kernel) hnext) trivial

/-! #### Every tree of the fragment -/

theorem joinsAs_ternary {condition whenTrue whenFalse : Lead → List Spelled}
    (hcondition : JoinsAs .value condition) (htrue : JoinsAs .value whenTrue)
    (hfalse : JoinsAs .value whenFalse) (hstart : MayStart context .tight)
    (hnext : endsLexeme next = true) :
    Joined context (condition .tight ++ ⟨.blank, .op .question⟩ ::
      (whenTrue .blank ++ ⟨.blank, .op .colon⟩ :: whenFalse .blank)) next := by
  refine joined_between hcondition hstart (fun tail hvalue hgap => ?_) ?_ ?_
  · simpa [Token.spelling, Operator.text] using lexes_question hvalue hgap tail
  -- The blank behind the question mark is the one before the second value.
  · obtain ⟨tail, htail⟩ := htrue.chars_blank
      (spelledChars (⟨.blank, .op .colon⟩ :: whenFalse .blank) ++ next)
    exact ⟨tail, by rw [spelledChars_append, List.append_assoc, htail]⟩
  · refine joined_between htrue (mayStart_blank (by decide) _) (fun tail _ _ => ?_)
      (hfalse.chars_blank next) (hfalse.value (mayStart_blank (by decide) _) hnext)
    simpa [Token.spelling, Operator.text] using lexes_colon _ tail

/-- By induction over the fragment: the tokens of a tree are joined in its place. -/
theorem joined_spelled {capitals : Capitals} {role : Role} {node : Node}
    (h : InFragment capitals role node) (indent : Nat) : JoinsAs role (node.spelled indent) := by
  induction h generalizing indent with
  | @atom atom line hatom =>
    have hall : ∀ atom ∈ [Atom.nilValue, .trueValue, .falseValue, .selfValue],
        isWordText atom.text = true ∧ (Token.word atom.text).endsValue = true := by
      decide +kernel
    exact joinsAs_token (hall atom hatom).2 fun _ hnext => lexes_word (hall atom hatom).1 hnext
  | int line hvalue => exact joinsAs_int hvalue
  | str content line => exact joinsAs_token rfl fun _ _ => lexes_str _ content _
  | sym name line => exact joinsAs_token rfl fun hstart hnext => lexes_symbol hstart.symbol hnext
  | @const name line _ hname =>
    have htoken : nameToken name = .const name := by simp [nameToken, hname.2]
    have hreads := hname.nameReads
    refine joinsAs_token rfl fun _ hnext => ?_
    rw [← htoken]
    exact lexes_nameToken hreads.text hreads.marker _ hnext
  | @array items line hitems ih =>
    refine ⟨⟨_, spelledChars_spelled (.array line hitems) indent⟩, fun hstart _ _ => ?_,
      fun lead context => ⟨.rbracket, ?_, rfl⟩⟩
    · refine joined_mark rfl hstart.follows (joined_append.2 ⟨?_, ?_⟩)
      · exact joined_spelledList (fun item hitem => (ih item hitem indent).asItem)
          (mayStart_tight rfl (by decide)) (by simp [Lead.context])
          (by simp [spelledChars, Token.spelling, endsLexeme])
      · exact joined_mark rfl (Lead.follows_tight _) trivial
    · rw [Node.spelled, Form.spelled, ← cons_append, contextBehind_concat]
  | @hash entries line hentries ih =>
    refine ⟨⟨_, spelledChars_spelled (.hash line hentries) indent⟩, fun hstart _ _ => ?_,
      fun lead context => ⟨.rbrace, ?_, rfl⟩⟩
    · rw [Node.spelled, Form.spelled]
      cases entries with
      | nil => exact joined_mark rfl hstart.follows (joined_mark rfl (Lead.follows_tight _) trivial)
      | cons entry entries =>
        refine joined_mark rfl hstart.follows (joined_append.2 ⟨?_, ?_⟩)
        · exact joined_spelledList (fun entry hentry => (ih entry hentry indent).asItem)
            (mayStart_blank (by decide) _) (by simp [Lead.context]) (endsLexeme_blank _ _ _)
        · exact joined_mark rfl (Lead.follows_blank _) trivial
    · rw [Node.spelled, Form.spelled]
      cases entries with
      | nil => rfl
      | cons entry entries =>
        show contextBehind context (_ :: (_ ++ _)) = _
        rw [← cons_append, contextBehind_concat]
  | @pair key value line hquestion hkey hvalue ihkey ihvalue =>
    refine ⟨⟨_, spelledChars_spelled (.pair line hquestion hkey hvalue) indent⟩,
      fun {lead context next} hstart hgap hnext => ?_, fun lead context => ?_⟩
    · rw [Node.spelled, Form.spelled]
      cases hlabel : key.labelKey? with
      | none =>
        rw [List.append_assoc]
        exact joined_between (ihkey indent) hstart
          (fun tail hvalue hgap => by simpa [Token.spelling] using lexes_arrow hvalue hgap tail)
          ((ihvalue indent).chars_blank next)
          ((ihvalue indent).value (mayStart_blank (by decide) _) hnext)
      | some name =>
        -- A label is read as one where no line starts: the role of the pair gives this.
        obtain ⟨hsym, hname⟩ := labelKey?_eq_some hlabel
        obtain ⟨tail, htail⟩ := (ihvalue indent).chars_blank next
        refine joined_cons hstart.follows ?_
          ((ihvalue indent).value (mayStart_blank (by simp) _) hnext)
        show Lexes _ _ _ (spelledChars (value.spelled indent .blank) ++ next)
        rw [htail]
        simpa [Token.spelling] using
          lexes_label hname (hquestion name hsym) hstart.dot (hgap rfl)
    · rw [Node.spelled, Form.spelled, contextBehind_append]
      exact (ihvalue indent).last .blank _
  | @call name args line hname hargs ih =>
    have hreads := nameReads_of_or hname
    exact joinsAs_call hreads.text hreads.marker hreads.opening
      (fun arg harg => spelledChars_spelled (hargs arg harg))
      (fun arg harg => (ih arg harg indent).asItem)
  | @keywordCall name args entries line hashLine hname hargs hne hentries ihargs ihentries =>
    have hreads := nameReads_of_or hname
    -- The last argument is a hash without braces, which is no tree of the fragment by itself.
    refine joinsAs_call hreads.text hreads.marker hreads.opening (fun arg harg => ?_)
      fun arg harg => ?_
    · rcases mem_append.1 harg with harg | harg
      · exact spelledChars_spelled (hargs arg harg)
      · rw [mem_singleton.1 harg]
        exact writes_keywords hne fun entry hentry => spelledChars_spelled (hentries entry hentry)
    · rcases mem_append.1 harg with harg | harg
      · exact (ihargs arg harg indent).asItem
      · rw [mem_singleton.1 harg]
        exact fun hstart hgap hnext => joined_spelledList
          (fun entry hentry => (ihentries entry hentry indent).asItem) hstart hgap hnext
  | binary line _ _ _ ihleft ihright =>
    exact joinsAs_operation (joinsAs_parens (ihleft indent) _) (ihright indent)
  | logical connective line _ _ ihleft ihright =>
    exact joinsAs_operation (ihleft indent) (ihright indent)
  | @ternary condition whenTrue whenFalse line hcondition htrue hfalse ihcondition ihtrue ihfalse =>
    refine ⟨⟨_, spelledChars_spelled (.ternary line hcondition htrue hfalse) indent⟩,
      fun hstart _ _ => joined_spelledParens hstart.follows ?_,
      fun lead context => ⟨.rparen, contextBehind_spelledParens context lead _, rfl⟩⟩
    exact joinsAs_ternary (ihcondition indent) (ihtrue indent) (ihfalse indent)
      (mayStart_tight rfl (by decide)) rfl
  | @range low high exclusive line hbound hlow hhigh ihlow ihhigh =>
    refine ⟨⟨_, spelledChars_spelled (.range exclusive line hbound hlow hhigh) indent⟩,
      fun hstart _ _ => joined_spelledParens hstart.follows (joined_append.2 ⟨?_, ?_⟩),
      fun lead context => ⟨.rparen, contextBehind_spelledParens context lead _, rfl⟩⟩
    · cases low with
      | none => trivial
      | some low =>
        refine (ihlow low rfl indent).value (mayStart_tight rfl (by decide)) ?_
        cases exclusive <;> simp [spelledChars, Token.spelling, Operator.text, endsLexeme]
    -- A third dot, or a fourth, would belong to the operator.
    · refine joined_cons (Lead.follows_tight _) (lexes_range _ exclusive ?_) ?_
      · cases high with
        | none => simp [spelled?, spelledChars]
        | some high =>
          rw [spelled?, spelledChars_spelled (hhigh high rfl)]
          exact head?_text_ne_dot (hhigh high rfl) indent _
      · cases high with
        | none => trivial
        | some high => exact (ihhigh high rfl indent).value (mayStart_tight rfl (by simp)) rfl
  | statement _ ih => exact (ih indent).asStatement
  | @block name args body callLine line hname hcall hbody ihcall ihbody =>
    refine ⟨⟨_, spelledChars_spelled (.block callLine line hname hcall hbody) indent⟩,
      fun hstart _ hnext => ?_, fun lead context => ⟨.word "end", ?_, by decide⟩⟩
    · exact joined_block (ihcall indent) (fun statement h => ihbody statement h _) hstart hnext
    · rw [Node.spelled, Form.spelled, ← cons_append, ← List.append_assoc, contextBehind_concat]

/-! ### Scripts -/

theorem mayStart_script : MayStart ⟨none, .lineStart⟩ .tight where
  follows := Lead.follows_tight _
  symbol := rfl
  dot := rfl

/-- The text of a script is that of its tokens. -/
theorem toList_renderScript {script : List Node} (h : ∀ node ∈ script, Writes node) :
    (renderScript script).toList = spelledChars (spelledBody 0 script .tight) := by
  cases script with
  | nil => simp [renderScript, texts, spelledBody, spelledChars]
  | cons node nodes =>
    obtain ⟨hnode, hnodes⟩ := forall_mem_cons.1 h
    rw [renderScript, texts, toList_intercalate_cons, spelledBody, spelledChars_append, hnode,
      spelledChars_spelledBody hnodes]
    simp

/-- **A written script is read as the tokens of its statements.** -/
theorem lex_renderScript {file : String} {capitals : Capitals} {script : List Node}
    (h : ∀ node ∈ script, InFragment capitals .statement node) :
    ∃ line, lex file (renderScript script) =
      .ok (place 1 true (spelledBody 0 script .tight) ++ [⟨.done, line, true⟩]) := by
  have htext := toList_renderScript fun node hnode => spelledChars_spelled (h node hnode)
  refine lex_spelled htext (joined_spelledBody ?_ mayStart_script rfl)
  exact fun node hnode => joined_spelled (h node hnode) 0

end LaneScript
