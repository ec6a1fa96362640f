import LaneScript.Proofs.TokenWeights

/-!
# Tokens on other lines

The tokens of a text know the lines they stand on, and so does the code in their strings, since it
is read as a text of its own later.  `Located.mapLines` changes all these lines by one function, as
`Node.mapLines` does for trees.  A failure also knows the name of its file, and a `Move` is a change
of both, `Failure.moved`.

Nothing in the reading of a text looks at the number of a line, which is only counted on, or at the
name of the file.  So a text that starts on a later line of another file is read in the same rounds,
each so many lines further down (`Round.moved`), and `lexFrom_moved` is what follows for the whole
text: the tokens are the same, or the fault is, and the lines are greater by the distance of the two
first lines.
-/

namespace LaneScript

open Literal
open List

/-! ### Changed lines -/

/-- The part with its line changed. -/
def StringPart.mapLines (f : Nat → Nat) : StringPart → StringPart
  | .text content => .text content
  | .code source line => .code source (f line)

/-- The token with the lines of its code changed. -/
def Token.mapLines (f : Nat → Nat) : Token → Token
  | .str parts => .str (parts.map (·.mapLines f))
  | .command parts => .command (parts.map (·.mapLines f))
  | token => token

/-- The token with its line and those of its code changed. -/
def Located.mapLines (f : Nat → Nat) (here : Located) : Located :=
  ⟨here.token.mapLines f, f here.line, here.spaced⟩

/-- The fault with the lines in its token changed. -/
def Fault.mapLines (f : Nat → Nat) : Fault → Fault
  | .unexpected token => .unexpected (token.mapLines f)
  | .expected what token => .expected what (token.mapLines f)
  | .invalidTargetToken token => .invalidTargetToken (token.mapLines f)
  | fault => fault

/-- What is different for a text in another place: the name of its file, and how many lines further
down it starts. -/
structure Move where
  file : String
  lines : Nat

/-- The line after the move. -/
abbrev Move.line (m : Move) (line : Nat) : Nat := line + m.lines

/-- Lines that are added later are added in both places. -/
theorem Move.line_add (m : Move) (line n : Nat) : m.line (line + n) = m.line line + n :=
  Nat.add_right_comm _ _ _

/-- The failure in the other place. -/
def Failure.moved (m : Move) (failure : Failure) : Failure :=
  ⟨m.file, m.line failure.line, failure.fault.mapLines m.line⟩

/-- The outcome in the other place, where what was found is changed by `g`. -/
def mapResult {α β : Type} (m : Move) (g : α → β) : Except Failure α → Except Failure β
  | .ok a => .ok (g a)
  | .error failure => .error (failure.moved m)

/-- A fault of a text has no token. -/
theorem Fault.mapLines_of_isOfText {fault : Fault} (h : fault.isOfText = true) (f : Nat → Nat) :
    fault.mapLines f = fault := by
  cases fault with
  | unexpected | expected | invalidTargetToken => cases h
  | _ => rfl

/-- The token is no string, and not the end of the input. -/
def Token.isPlain : Token → Bool
  | .str _ | .command _ | .done => false
  | _ => true

/-- Only strings have code. -/
theorem Token.IsMadeOf.mapLines_eq {token : Token} (h : token.IsMadeOf []) (f : Nat → Nat) :
    token.mapLines f = token := by
  have hparts : token.parts = [] := h.parts_eq.elim id id
  cases token with
  | str parts =>
    cases (hparts : parts = [])
    rfl
  | command parts =>
    cases (hparts : parts = [])
    rfl
  | _ => rfl

/-- A number has no lines inside. -/
theorem integerToken_mapLines (radix : Nat) (digits text : List Char) (f : Nat → Nat) :
    (integerToken radix digits text).mapLines f = integerToken radix digits text := by
  unfold integerToken
  dsimp only
  split <;> rfl

/-- No lines further down the tokens are themselves. -/
theorem map_mapLines_add_zero (tokens : List Located) :
    tokens.map (·.mapLines (· + 0)) = tokens := by
  have hparts : ∀ parts : List StringPart, parts.map (·.mapLines (· + 0)) = parts := by
    intro parts
    refine map_id'' (fun part => ?_) parts
    cases part <;> rfl
  refine map_id'' (fun here => ?_) tokens
  obtain ⟨token, line, spaced⟩ := here
  cases token with
  | str parts => exact congrArg (fun parts => Located.mk (.str parts) line spaced) (hparts parts)
  | command parts =>
    exact congrArg (fun parts => Located.mk (.command parts) line spaced) (hparts parts)
  | _ => rfl

@[simp] theorem StringPart.weight_mapLines (f : Nat → Nat) (part : StringPart) :
    (part.mapLines f).weight = part.weight := by
  cases part <;> rfl

/-- Code counts by its length, wherever it stands. -/
@[simp] theorem Token.weight_mapLines (f : Nat → Nat) (token : Token) :
    (token.mapLines f).weight = token.weight := by
  have hparts : ∀ parts : List StringPart,
      partsWeight (parts.map (·.mapLines f)) = partsWeight parts := by
    intro parts
    induction parts with
    | nil => rfl
    | cons part parts ih =>
      rw [map_cons, partsWeight_cons, partsWeight_cons, part.weight_mapLines, ih]
  cases token with
  | str parts => exact congrArg (1 + ·) (hparts parts)
  | command parts => exact congrArg (1 + ·) (hparts parts)
  | _ => rfl

/-- There is as much to read on other lines. -/
theorem tokensWeight_mapLines (f : Nat → Nat) (tokens : List Located) :
    tokensWeight (tokens.map (·.mapLines f)) = tokensWeight tokens := by
  induction tokens with
  | nil => rfl
  | cons here tokens ih =>
    rw [map_cons, tokensWeight_cons, tokensWeight_cons, ih]
    exact congrArg (· + _) (here.token.weight_mapLines f)

/-! ### String bodies -/

/-- The piece with its line changed. -/
def Piece.mapLines (f : Nat → Nat) : Piece → Piece
  | .char c => .char c
  | .code source line => .code source (f line)

theorem map_mapLines_char (f : Nat → Nat) (decoded : List Char) :
    (decoded.map Piece.char).map (Piece.mapLines f) = decoded.map .char := by
  rw [map_map]
  rfl

/-- Pieces are joined by what they are, not by where. -/
theorem joinAfter_mapLines (f : Nat → Nat) (pending : List Char) (pieces : List Piece) :
    joinAfter pending (pieces.map (Piece.mapLines f)) =
      (joinAfter pending pieces).map (·.mapLines f) := by
  induction pieces generalizing pending with
  | nil =>
    rw [map_nil, joinAfter]
    split <;> rfl
  | cons piece pieces ih =>
    cases piece with
    | char c => exact ih (c :: pending)
    | code source line =>
      rw [map_cons, Piece.mapLines, joinAfter, joinAfter, ih]
      split <;> rfl

theorem joinPieces_mapLines (f : Nat → Nat) (pieces : List Piece) :
    joinPieces (pieces.map (Piece.mapLines f)) = (joinPieces pieces).map (·.mapLines f) := by
  cases pieces with
  | nil => rfl
  | cons piece pieces => exact joinAfter_mapLines f [] (piece :: pieces)

section Add

variable (k : Nat)

/-- What is found by a choice, where the branches are mapped. -/
theorem ite_eq_map {α β : Type} {P : Prop} [Decidable P] {g : α → β} {one other : Except Fault α}
    {one' other' : Except Fault β} (hone : P → one' = one.map g)
    (hother : ¬ P → other' = other.map g) :
    (if P then one' else other') = (if P then one else other).map g := by
  by_cases h : P
  · rw [if_pos h, if_pos h, hone h]
  · rw [if_neg h, if_neg h, hother h]

/-- The lines of the first pieces are counted from where the string starts. -/
theorem firstPieces_add (close : Option Char) (interpolated : Bool) (line : Nat) (c : Char)
    (rest : List Char) :
    firstPieces close interpolated (line + k) c rest =
      (firstPieces close interpolated line c rest).map
        (Prod.map (List.map (Piece.mapLines (· + k))) id) := by
  unfold firstPieces
  refine ite_eq_map (fun _ => ?_) fun _ => ite_eq_map (fun _ => ?_) fun _ => rfl
  · cases rest.head? with
    | none => rfl
    | some next =>
      refine ite_eq_map (fun _ => ?_) fun _ => ?_
      · cases decodeEscape rest with
        | error fault => rfl
        | ok decoded =>
          exact congrArg (fun pieces => Except.ok (pieces, _)) (map_mapLines_char _ _).symm
      · exact congrArg (fun pieces => Except.ok (pieces, _)) (map_mapLines_char _ _).symm
  -- code keeps the line that it starts on
  · cases closingBrace (rest.drop 1) with
    | none => rfl
    | some length => rfl

/-- The same for all the pieces, and for the failure to close the string. -/
theorem scanPieces_add (close : Option Char) (interpolated : Bool) (line : Nat)
    (text : List Char) :
    scanPieces close interpolated (line + k) text =
      (scanPieces close interpolated line text).map
        (Prod.map (List.map (Piece.mapLines (· + k))) id) := by
  induction hlength : text.length using Nat.strong_induction_on generalizing line text with
  | h length ih =>
    cases text with
    | nil =>
      rw [scanPieces, scanPieces]
      exact ite_eq_map (fun _ => rfl) fun _ => rfl
    | cons c rest =>
      by_cases hclose : (some c == close) = true
      · rw [scanPieces, scanPieces, if_pos hclose, if_pos hclose]
        rfl
      · rw [scanPieces_cons _ _ _ hclose, scanPieces_cons _ _ _ hclose, firstPieces_add]
        -- the next pieces start behind the line ends of these, in both bodies
        have hread := scans_firstPieces close interpolated line c rest
        cases hfirst : firstPieces close interpolated line c rest with
        | error fault => rfl
        | ok first =>
          rw [hfirst] at hread
          have hlt : ((c :: rest).drop first.2.length).length < length := by
            have hpos := hread.1
            rw [← hlength, length_drop, length_cons]
            omega
          have hline : line + k + first.2.newlines = line + first.2.newlines + k :=
            Nat.add_right_comm _ _ _
          have hothers := ih _ hlt (line + first.2.newlines) _ rfl
          dsimp only [Except.map, bind, Except.bind, Prod.map_fst, Prod.map_snd, id]
          rw [hline, hothers]
          cases scanPieces close interpolated (line + first.2.newlines)
              ((c :: rest).drop first.2.length) with
          | error fault => rfl
          | ok found =>
            dsimp only [Except.map, Prod.map_fst, Prod.map_snd, id]
            rw [Prod.map_apply, map_append]
            rfl

/-- A body that starts so many lines further down has its code there. -/
theorem scanBody_add (close : Option Char) (interpolated : Bool) (line : Nat)
    (text : List Char) :
    scanBody close interpolated (line + k) text =
      (scanBody close interpolated line text).map
        (Prod.map (List.map (·.mapLines (· + k))) id) := by
  rw [scanBody, scanBody, scanPieces_add]
  cases scanPieces close interpolated line text with
  | error fault => rfl
  | ok found =>
    exact congrArg (fun parts => Except.ok (parts, found.2)) (joinPieces_mapLines _ found.1)

/-! ### Steps -/

/-- The lexeme with the lines of its code changed. -/
def Lexeme.mapLines (f : Nat → Nat) (lexeme : Lexeme) : Lexeme :=
  ⟨lexeme.token.mapLines f, lexeme.extent⟩

/-- The step with the lines in its lexeme changed. -/
def Step.mapLines (f : Nat → Nat) : Step → Step
  | .lexeme found => .lexeme (found.mapLines f)
  | step => step

/-- The context with the lines in the token changed. -/
def Context.mapLines (f : Nat → Nat) (context : Context) : Context :=
  ⟨context.last.map (·.mapLines f), context.gap⟩

section Context

variable (f : Nat → Nat) (context : Context)

@[simp] theorem Context.afterValue_mapLines :
    (context.mapLines f).afterValue = context.afterValue := by
  obtain ⟨last, gap⟩ := context
  cases last with
  | none => rfl
  | some token => cases token <;> rfl

@[simp] theorem Context.afterDot_mapLines : (context.mapLines f).afterDot = context.afterDot := by
  obtain ⟨last, gap⟩ := context
  cases last with
  | none => rfl
  | some token => cases token <;> rfl

/-- What the lexer knows of the token before has no lines. -/
@[simp] theorem Context.startsArgument_mapLines (next : Option Char) :
    (context.mapLines f).startsArgument next = context.startsArgument next := by
  obtain ⟨last, gap⟩ := context
  cases last with
  | none => rfl
  | some token => cases token <;> rfl

@[simp] theorem Context.allowsLiteral_mapLines (next : Option Char) :
    (context.mapLines f).allowsLiteral next = context.allowsLiteral next := by
  rw [allowsLiteral, afterValue_mapLines, startsArgument_mapLines, allowsLiteral]

@[simp] theorem Context.allowsSymbol_mapLines :
    (context.mapLines f).allowsSymbol = context.allowsSymbol := by
  rw [allowsSymbol, afterValue_mapLines]
  rfl

end Context

/-- A literal that is closed by a character, further down. -/
theorem closedBy_add (close : Char) (interpolated : Bool) {token : List StringPart → Token}
    (htoken : ∀ parts, token (parts.map (·.mapLines (· + k))) = (token parts).mapLines (· + k))
    (line opening : Nat) (text : List Char) :
    Lexeme.closedBy close interpolated token (line + k) opening text =
      (Lexeme.closedBy close interpolated token line opening text).map
        (Lexeme.mapLines (· + k)) := by
  rw [Lexeme.closedBy, Lexeme.closedBy, scanBody_add]
  cases scanBody (some close) interpolated line text with
  | error fault => rfl
  | ok found => exact congrArg (fun token => Except.ok (Lexeme.mk token _)) (htoken found.1)

/-- A symbol in quotes may have code inside. -/
theorem symbol?_add (context : Context) (line : Nat) (rest : List Char) :
    Lexeme.symbol? (context.mapLines (· + k)) (line + k) rest =
      (Lexeme.symbol? context line rest).map (Option.map (Lexeme.mapLines (· + k))) := by
  unfold Lexeme.symbol?
  rw [context.allowsSymbol_mapLines]
  refine ite_eq_map (fun _ => rfl) fun _ => ?_
  cases rest.head? with
  | none => rfl
  | some c =>
    refine ite_eq_map (fun _ => ?_) fun _ => ite_eq_map (fun _ => rfl) fun _ => ?_
    · -- the code of a quoted symbol is a part of its name
      have htext : ∀ parts : List StringPart,
          (parts.map (·.mapLines (· + k))).map Lexeme.symbolText =
            parts.map Lexeme.symbolText := by
        intro parts
        rw [map_map]
        refine map_congr_left fun part _ => ?_
        cases part <;> rfl
      dsimp only
      rw [closedBy_add k _ _ fun parts => congrArg (Token.symbol ∘ String.join) (htext parts)]
      cases Lexeme.closedBy '"' true _ line 2 (rest.drop 1) <;> rfl
    · exact ite_eq_map (fun _ => rfl) fun _ => rfl

theorem percent?_add (line : Nat) (rest : List Char) :
    Lexeme.percent? (line + k) rest =
      (Lexeme.percent? line rest).map (Option.map (Lexeme.mapLines (· + k))) := by
  unfold Lexeme.percent?
  cases Lexeme.percentHead? rest with
  | none => rfl
  | some head =>
    obtain ⟨kind, opener, head⟩ := head
    -- words have no code inside
    have hwords : ∀ symbols close opening text,
        (Lexeme.wordList symbols close opening text).map some =
          ((Lexeme.wordList symbols close opening text).map some).map
            (Option.map (Lexeme.mapLines (· + k))) := by
      intro symbols close opening text
      unfold Lexeme.wordList
      dsimp only
      split <;> rfl
    refine ite_eq_map (fun _ => hwords _ _ _ _) fun _ => ?_
    refine ite_eq_map (fun _ => hwords _ _ _ _) fun _ => ?_
    rw [closedBy_add k _ _ fun _ => rfl]
    cases Lexeme.closedBy _ _ Token.str line (1 + head) (rest.drop head) <;> rfl

/-- The second attempt is made in both places or in none. -/
theorem orElse_map {attempt attempt' : Except Fault (Option Lexeme)}
    {other other' : Unit → Except Fault Step} (f : Nat → Nat)
    (h : attempt' = attempt.map (Option.map (Lexeme.mapLines f)))
    (hother : other' () = (other ()).map (Step.mapLines f)) :
    Step.orElse attempt' other' = (Step.orElse attempt other).map (Step.mapLines f) := by
  subst h
  cases attempt with
  | error fault => rfl
  | ok found =>
    cases found with
    | none => exact hother
    | some lexeme => rfl

theorem markStep_eq_map (f : Nat → Nat) (c : Char) (rest : List Char) :
    markStep c rest = (markStep c rest).map (Step.mapLines f) := by
  -- a token without parts has no lines
  have hplain : ∀ {token : Token} {extent : Extent}, token.IsMadeOf [] →
      (.ok (.lexeme ⟨token, extent⟩) : Except Fault Step) =
        (Except.ok (Step.lexeme ⟨token, extent⟩)).map (Step.mapLines f) := by
    intro token extent h
    exact congrArg (fun token => Except.ok (Step.lexeme ⟨token, extent⟩)) (h.mapLines_eq f).symm
  unfold markStep
  split
  next token hmark => exact hplain (isMadeOf_punctuation? hmark)
  · split
    next lexeme hoperator =>
      obtain ⟨row, hrow, rfl⟩ := Option.map_eq_some_iff.1 hoperator
      exact hplain (isMadeOf_operatorTable row (mem_of_find?_eq_some hrow))
    · rfl

/-- The literals one after another, each further down. -/
theorem literalStep_add (context : Context) (line : Nat) (c : Char) (rest : List Char) :
    literalStep (context.mapLines (· + k)) (line + k) c rest =
      (literalStep context line c rest).map (Step.mapLines (· + k)) := by
  have hmark := markStep_eq_map (· + k) c rest
  unfold literalStep
  simp only [Context.allowsLiteral_mapLines]
  refine ite_eq_map (fun _ => orElse_map _ (symbol?_add k context line rest) hmark) fun _ => ?_
  refine ite_eq_map (fun _ => orElse_map _ (percent?_add k line rest) hmark) fun _ => ?_
  refine ite_eq_map (fun _ => ?_) fun _ => ite_eq_map (fun _ => ?_) fun _ => hmark
  · unfold Lexeme.regex
    cases Lexeme.regexLength? rest <;> rfl
  cases heredocOpener? (rest.drop 1) with
  | none => exact hmark
  | some found => rfl

theorem Lexeme.name_mapLines (f : Nat → Nat) (context : Context) (text : List Char) :
    Lexeme.name (context.mapLines f) text = (Lexeme.name context text).mapLines f := by
  unfold Lexeme.name
  rw [Context.afterDot_mapLines]
  dsimp only
  split
  · rfl
  · split <;> rfl

/-- A numeral has no line inside. -/
theorem numeralStep_eq_map (f : Nat → Nat) (text : List Char) :
    ((scanNumeral text).map fun found => Step.lexeme (.onLine found.1 found.2)) =
      ((scanNumeral text).map fun found => Step.lexeme (.onLine found.1 found.2)).map
        (Step.mapLines f) := by
  -- an integer is a token without parts, however it is written
  have hinteger : ∀ (radix : Nat) (digits text : List Char) (n : Nat),
      (.ok (.lexeme (.onLine (integerToken radix digits text) n)) : Except Fault Step) =
        (Except.ok (Step.lexeme (.onLine (integerToken radix digits text) n))).map
          (Step.mapLines f) :=
    fun radix digits text n => congrArg (fun token => Except.ok (Step.lexeme (.onLine token n)))
      (integerToken_mapLines radix digits text f).symm
  unfold scanNumeral
  dsimp only
  split
  · split
    · rfl
    · exact hinteger _ _ _ _
  · split
    · exact hinteger _ _ _ _
    · rfl

/-- A step so many lines further down is the same step. -/
theorem nextStep_add (context : Context) (line : Nat) (c : Char) (rest : List Char) :
    nextStep (context.mapLines (· + k)) (line + k) c rest =
      (nextStep context line c rest).map (Step.mapLines (· + k)) := by
  have hstring : ∀ close interpolated {token : List StringPart → Token},
      (∀ parts, token (parts.map (·.mapLines (· + k))) = (token parts).mapLines (· + k)) →
      (Lexeme.closedBy close interpolated token (line + k) 1 rest).map Step.lexeme =
        ((Lexeme.closedBy close interpolated token line 1 rest).map Step.lexeme).map
          (Step.mapLines (· + k)) := by
    intro close interpolated token htoken
    rw [closedBy_add k _ _ htoken]
    cases Lexeme.closedBy close interpolated token line 1 rest <;> rfl
  have hvar : ∀ (missing : Bool) (fault : Fault) (sigil : Sigil) (name : String) (n : Nat),
      (if missing then .error fault else .ok (.onLine (.var sigil name) n) :
          Except Fault Lexeme).map Step.lexeme =
        ((if missing then .error fault else .ok (.onLine (.var sigil name) n) :
          Except Fault Lexeme).map Step.lexeme).map (Step.mapLines (· + k)) := by
    intro missing fault sigil name n
    cases missing <;> rfl
  unfold nextStep
  -- a comment, the end of the script, and what is skipped
  refine ite_eq_map (fun _ => ?_) fun _ => ?_
  · cases blockComment? (c :: rest) <;> rfl
  refine ite_eq_map (fun _ => rfl) fun _ => ite_eq_map (fun _ => rfl) fun _ => ?_
  refine ite_eq_map (fun _ => rfl) fun _ => ite_eq_map (fun _ => rfl) fun _ => ?_
  refine ite_eq_map (fun _ => rfl) fun _ => ?_
  -- strings and commands
  refine ite_eq_map (fun _ => hstring _ _ fun _ => rfl) fun _ => ?_
  refine ite_eq_map (fun _ => hstring _ _ fun _ => rfl) fun _ => ?_
  refine ite_eq_map (fun _ => hstring _ _ fun _ => rfl) fun _ => ?_
  -- numerals, variables, names, and the rest
  refine ite_eq_map (fun _ => numeralStep_eq_map _ _) fun _ => ?_
  refine ite_eq_map (fun _ => hvar _ _ _ _ _) fun _ => ?_
  refine ite_eq_map (fun _ => hvar _ _ _ _ _) fun _ => ?_
  refine ite_eq_map (fun _ => ?_) fun _ => literalStep_add k context line c rest
  exact congrArg (fun lexeme => Except.ok (Step.lexeme lexeme)) (Lexeme.name_mapLines _ _ _)

/-! ### Heredocs -/

/-- The body of a heredoc is a string, further down. -/
theorem parts_add (opener : HeredocOpener) (line : Nat) (lines : List (List Char)) :
    opener.parts (line + k) lines =
      (opener.parts line lines).map (List.map (·.mapLines (· + k))) := by
  unfold HeredocOpener.parts
  refine ite_eq_map (fun _ => rfl) fun _ => ?_
  rw [scanBody_add]
  cases scanBody none true line _ <;> rfl

/-- The heredoc with its line changed. -/
def PendingHeredoc.mapLines (f : Nat → Nat) (heredoc : PendingHeredoc) : PendingHeredoc :=
  { heredoc with line := f heredoc.line }

@[simp] theorem PendingHeredoc.opener_mapLines (f : Nat → Nat) (heredoc : PendingHeredoc) :
    (heredoc.mapLines f).opener = heredoc.opener := rfl

/-- The bodies with the lines of their code changed. -/
def HeredocBodies.mapLines (f : Nat → Nat) (bodies : HeredocBodies) : HeredocBodies :=
  { bodies with parts := bodies.parts.map (Prod.map id (List.map (·.mapLines f))) }

end Add

section Moved

variable (m : Move)

/-- The bodies are read one behind another, each from the line where the last one ended. -/
theorem readBodies_moved (file : String) (pending : List PendingHeredoc) (line : Nat)
    (text : List Char) :
    readBodies m.file (pending.map (·.mapLines m.line)) (m.line line) text =
      mapResult m (·.mapLines m.line) (readBodies file pending line text) := by
  induction pending generalizing line text with
  | nil => rfl
  | cons heredoc others ih =>
    rw [map_cons, readBodies, readBodies, heredoc.opener_mapLines]
    cases hfound : heredocLines? heredoc.opener text with
    | none => rfl
    | some found =>
      obtain ⟨lines, length⟩ := found
      have hparts := scans_parts heredoc.opener line (linesRead_of_heredocLines? hfound).plain
      dsimp only
      rw [parts_add]
      cases hok : heredoc.opener.parts line lines with
      | error fault =>
        -- a fault in a body is one of the text, so it has no lines of its own
        rw [hok] at hparts
        exact congrArg (fun fault => Except.error (Failure.mk m.file (m.line line) fault))
          (Fault.mapLines_of_isOfText hparts _).symm
      | ok parts =>
        have hline : m.line line + lines.length + 1 = m.line (line + lines.length + 1) := by
          rw [m.line_add, m.line_add]
        dsimp only [Except.map]
        rw [hline, ih]
        cases readBodies file others (line + lines.length + 1) (text.drop length) with
        | error failure => rfl
        | ok bodies => rfl

/-! ### Rounds -/

namespace LexState

/-- The state in the other place. -/
def moved (s : LexState) : LexState :=
  ⟨m.file, s.tokens.map (·.mapLines m.line), s.gap, m.line s.line,
    s.pending.map (·.mapLines m.line)⟩

theorem context_moved (s : LexState) : (s.moved m).context = s.context.mapLines m.line := by
  unfold context moved Context.mapLines
  simp only [Array.back?_map, Option.map_map]
  rfl

theorem push_moved (s : LexState) (token : Token) :
    (s.moved m).push (token.mapLines m.line) = (s.push token).moved m := by
  unfold push moved
  simp only [Array.map_push]
  rfl

theorem skip_moved (s : LexState) (text : List Char) (extent : Extent) :
    (s.moved m).skip text extent = (s.skip text extent).moved m := by
  unfold skip moved
  rw [Nat.add_right_comm]

theorem take_moved (s : LexState) (lexeme : Lexeme) :
    (s.moved m).take (lexeme.mapLines m.line) = (s.take lexeme).moved m := by
  unfold take
  rw [Lexeme.mapLines, push_moved]
  simp only [moved, Nat.add_right_comm]

theorem openHeredoc_moved (s : LexState) (opener : HeredocOpener) :
    (s.moved m).openHeredoc opener = (s.openHeredoc opener).moved m := by
  unfold openHeredoc
  have hpush : (s.moved m).push (.str []) = (s.push (.str [])).moved m :=
    s.push_moved m (.str [])
  rw [hpush]
  simp only [moved, map_append, Array.size_map]
  rfl

/-- A newline is left out in both places or in none. -/
theorem endLine_moved (s : LexState) : (s.moved m).endLine = s.endLine.moved m := by
  have hlast : (s.moved m).tokens.back?.map (·.token) =
      (s.tokens.back?.map (·.token)).map (·.mapLines m.line) :=
    congrArg Context.last (s.context_moved m)
  -- whether the last token is a newline does not depend on its line
  have hempty : ∀ last : Option Token,
      (last.map (·.mapLines m.line) == none || last.map (·.mapLines m.line) == some .newline) =
        (last == none || last == some .newline) := by
    intro last
    cases last with
    | none => rfl
    | some token => cases token <;> rfl
  have hpush : (s.moved m).push .newline = (s.push .newline).moved m :=
    s.push_moved m .newline
  have hline : m.line s.line + 1 = m.line (s.line + 1) := (m.line_add _ _).symm
  unfold endLine
  simp only [hlast, hempty, hpush]
  split
  · simp only [moved, hline]
  · simp only [moved, hline]

theorem modify_mapLines (f : Nat → Nat) (tokens : Array Located) (slot : Nat)
    (parts : List StringPart) :
    ((tokens.map (·.mapLines f)).modify slot fun t =>
        { t with token := .str (parts.map (·.mapLines f)) }) =
      (tokens.modify slot fun t => { t with token := .str parts }).map (·.mapLines f) := by
  apply Array.ext_getElem?
  intro i
  rw [Array.getElem?_modify, Array.getElem?_map, Array.getElem?_map, Array.getElem?_modify]
  split
  · cases tokens[i]? <;> rfl
  · rfl

/-- The bodies come into the same slots. -/
theorem foldl_modify_mapLines (f : Nat → Nat) (parts : List (Nat × List StringPart))
    (tokens : Array Located) :
    (parts.map (Prod.map id (List.map (·.mapLines f)))).foldl
        (fun tokens (slot, parts) => tokens.modify slot fun t => { t with token := .str parts })
        (tokens.map (·.mapLines f)) =
      (parts.foldl
        (fun tokens (slot, parts) => tokens.modify slot fun t => { t with token := .str parts })
        tokens).map (·.mapLines f) := by
  induction parts generalizing tokens with
  | nil => rfl
  | cons body parts ih =>
    rw [map_cons, foldl_cons, foldl_cons, ← ih]
    congr 1
    exact modify_mapLines _ tokens body.1 body.2

/-- Filling the slots with moved bodies moves the state. -/
theorem fill_moved (s : LexState) (bodies : HeredocBodies) :
    (s.moved m).fill (bodies.mapLines m.line) = (s.fill bodies).moved m := by
  have htokens := foldl_modify_mapLines m.line
  unfold fill
  simp only [moved, HeredocBodies.mapLines, htokens, Nat.add_right_comm]
  rfl

/-- One step from the moved state is the moved step. -/
theorem nextStep_ok_moved {s : LexState} {c : Char} {rest : List Char} {step : Step}
    (h : nextStep s.context s.line c rest = .ok step) :
    nextStep (s.moved m).context (s.moved m).line c rest =
      .ok (step.mapLines m.line) := by
  rw [context_moved]
  exact (nextStep_add m.lines s.context s.line c rest).trans (congrArg (Except.map _) h)

/-- The rounds of a text that starts on a later line are the same. -/
theorem Round.moved {s s' : LexState} {text text' : List Char} (h : Round s text s' text') :
    Round (s.moved m) text (s'.moved m) text' := by
  cases h with
  | skip hstep =>
    rw [← skip_moved]
    exact .skip (nextStep_ok_moved m hstep)
  | @lexeme c rest lexeme hstep =>
    have hstep' : nextStep (s.moved m).context (s.moved m).line c rest =
        .ok (.lexeme (lexeme.mapLines m.line)) := nextStep_ok_moved m hstep
    rw [← take_moved]
    exact .lexeme hstep'
  | heredoc hstep =>
    rw [← openHeredoc_moved]
    exact .heredoc (nextStep_ok_moved m hstep)
  | @lineEnd c rest bodies hstep hbodies =>
    -- the bodies start on the line behind
    have hread : readBodies m.file (s.moved m).pending ((s.moved m).line + 1) rest =
        .ok (bodies.mapLines m.line) := by
      have hadd := readBodies_moved m s.file s.pending (s.line + 1) rest
      rw [hbodies, m.line_add] at hadd
      exact hadd
    rw [← fill_moved, ← endLine_moved]
    exact .lineEnd (nextStep_ok_moved m hstep) hread

theorem Halts.moved {s : LexState} {text : List Char} (h : s.Halts text) :
    (s.moved m).Halts text := by
  cases text with
  | nil => trivial
  | cons c rest => exact nextStep_ok_moved m h

/-- The failure is that of the other file, on the other line. -/
theorem Fails.moved {s : LexState} {failure : Failure} {text : List Char}
    (h : s.Fails failure text) :
    (s.moved m).Fails (failure.moved m) text := by
  cases text with
  | nil => exact h.elim
  | cons c rest =>
    rcases h with ⟨hstep, -, hline⟩ | ⟨hstep, hbodies⟩
    -- a fault of the text names no line
    · have hfault : failure.fault.mapLines m.line = failure.fault := by
        have hread := scans_nextStep s.context s.line c rest
        rw [hstep] at hread
        exact Fault.mapLines_of_isOfText hread _
      refine .inl ⟨?_, rfl, congrArg m.line hline⟩
      rw [context_moved, Failure.moved, hfault]
      exact (nextStep_add m.lines s.context s.line c rest).trans (congrArg (Except.map _) hstep)
    · refine .inr ⟨nextStep_ok_moved m hstep, ?_⟩
      have hread := readBodies_moved m s.file s.pending (s.line + 1) rest
      rw [hbodies, m.line_add] at hread
      exact hread

end LexState

/-- A text in another place is read in the same way. -/
theorem scan_moved (s : LexState) (text : List Char) :
    scan (s.moved m) text =
      mapResult m (·.moved m) (scan s text) := by
  have hfollows : LexState.Follows (·.moved m) (·.moved m) :=
    ⟨fun h => h.moved m, fun h => h.moved m, fun h => h.moved m⟩
  rw [hfollows.scan_eq]
  cases scan s text <;> rfl

/-- The tokens of a text in another place are the same, so many lines further down. -/
theorem lexFrom_moved (file : String) (line : Nat) (source : String) :
    lexFrom m.file (m.line line) source =
      mapResult m (List.map (·.mapLines m.line)) (lexFrom file line source) := by
  have hstart : LexState.start m.file (m.line line) = (LexState.start file line).moved m := by
    simp [LexState.start, LexState.moved]
  rw [lexFrom, lexFrom, hstart, scan_moved]
  cases scan (.start file line) source.toList with
  | error failure => rfl
  | ok s =>
    obtain ⟨_, tokens, gap, line, pending⟩ := s
    -- a heredoc that is still open is a failure in both places
    cases pending with
    | cons heredoc others => rfl
    | nil =>
      change Except.ok _ = Except.ok _
      congr 1
      simp only [LexState.moved, Array.toList_push, Array.toList_map, map_append]
      rfl

end Moved
end LaneScript
