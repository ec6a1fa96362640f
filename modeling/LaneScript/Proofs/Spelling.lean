import LaneScript.Proofs.Lexemes

/-!
# Reading a spelled text

A written script is a list of tokens, each with the way it stands behind the one before it: close
to it, behind a blank, or on a new line with some indentation.  `Spelled` is such a token, and
`spelledChars` the text of a list of them.

`place` computes the tokens that the reader finds in this text, with their lines and whether a blank
is before them; a new line adds a token of its own.  `Joined` says that every token is read from its
spelling where it stands, which is a matter of its neighbours.

The main statement is `lex_spelled`: a joined text is read as exactly the tokens placed.  The proof
is one step lemma for each of the ways in which a token can stand behind another, `scan_lead`, one
for the token itself, `scan_lexes`, and an induction over the list.  A text of one token, such as a
symbol with any name, needs the latter only (`lexFrom_lexes`).
-/

namespace LaneScript

open Literal
open Text (isBlank)
open List

/-! ### Spelled tokens -/

/-- A token as it is written.  The tokens that no written tree has are left out. -/
def Token.spelling : Token → String
  | .word text | .const text => text
  | .label name => name ++ ":"
  | .symbol name => symbolText name
  | .str [.text content] => stringText content
  | .int value => toString value
  | .op operator => operator.text
  | .lparen => "(" | .rparen => ")" | .lbracket => "[" | .rbracket => "]"
  | .lbrace => "\x7b" | .rbrace => "\x7d" | .comma => "," | .arrow => "=>"
  | _ => ""

/-- How a token stands behind the one before it. -/
inductive Lead where
  | tight
  | blank
  | newLine (indent : Nat)
  deriving DecidableEq

/-- The text before the token. -/
def Lead.text : Lead → String
  | .tight => ""
  | .blank => " "
  | .newLine indent => lineBreak indent

@[simp] theorem Lead.text_tight : Lead.tight.text = "" := rfl

@[simp] theorem Lead.text_blank : Lead.blank.text = " " := rfl

@[simp] theorem Lead.text_newLine (indent : Nat) :
    (Lead.newLine indent).text = lineBreak indent := rfl

/-- A token and how it stands behind the one before it. -/
structure Spelled where
  lead : Lead
  token : Token

/-- The characters of some spelled tokens. -/
def spelledChars : List Spelled → List Char
  | [] => []
  | p :: ps => p.lead.text.toList ++ p.token.spelling.toList ++ spelledChars ps

@[simp] theorem spelledChars_append (ps qs : List Spelled) :
    spelledChars (ps ++ qs) = spelledChars ps ++ spelledChars qs := by
  induction ps with
  | nil => rfl
  | cons p ps ih => simp [spelledChars, ih]

/-! ### Placed tokens -/

/-- How many lines further the token stands. -/
def Lead.lines : Lead → Nat
  | .newLine _ => 1
  | _ => 0

/-- How many lines further the last of some tokens stands. -/
def spelledLines : List Spelled → Nat
  | [] => 0
  | p :: ps => p.lead.lines + spelledLines ps

/-- The tokens found for a spelled one; `spaced` tells that a blank stands before it already. -/
def Spelled.located (line : Nat) (spaced : Bool) (p : Spelled) : List Located :=
  match p.lead with
  | .tight => [⟨p.token, line, spaced⟩]
  | .blank => [⟨p.token, line, true⟩]
  | .newLine _ => [⟨.newline, line, spaced⟩, ⟨p.token, line + 1, true⟩]

/-- The tokens found for some spelled ones. -/
def place (line : Nat) (spaced : Bool) : List Spelled → List Located
  | [] => []
  | p :: ps => p.located line spaced ++ place (line + p.lead.lines) false ps

/-- Tokens are placed from where the ones before them end. -/
theorem place_append (line : Nat) (spaced : Bool) (ps qs : List Spelled) :
    place line spaced (ps ++ qs) =
      place line spaced ps ++ place (line + spelledLines ps) (spaced && ps.isEmpty) qs := by
  induction ps generalizing line spaced with
  | nil => simp [place, spelledLines]
  | cons p ps ih =>
    simp only [cons_append, place, ih, spelledLines, List.append_assoc, Nat.add_assoc,
      Bool.false_and, isEmpty_cons, Bool.and_false]

/-! ### Joined tokens -/

/-- The place of a token behind its lead. -/
def Lead.context (context : Context) : Lead → Context
  | .tight => context
  | .blank => { context with gap := .blank }
  | .newLine indent => ⟨some .newline, if indent = 0 then .lineStart else .blank⟩

/-- Another line starts only behind a token that is on this one. -/
def Lead.follows (context : Context) : Lead → Prop
  | .newLine _ => context.last ≠ none ∧ context.last ≠ some .newline
  | _ => True

theorem Lead.follows_tight (context : Context) : Lead.tight.follows context := trivial

theorem Lead.follows_blank (context : Context) : Lead.blank.follows context := trivial

/-- Every token is read from its spelling where it stands, with `next` behind the last one. -/
def Joined (context : Context) : List Spelled → List Char → Prop
  | [], _ => True
  | p :: ps, next =>
    p.lead.follows context ∧
      Lexes (p.lead.context context) p.token p.token.spelling.toList (spelledChars ps ++ next) ∧
      Joined ⟨some p.token, .none⟩ ps next

/-- The place behind some tokens. -/
def contextBehind (context : Context) (ps : List Spelled) : Context :=
  match ps.getLast? with
  | some p => ⟨some p.token, .none⟩
  | none => context

@[simp] theorem contextBehind_concat (context : Context) (ps : List Spelled) (p : Spelled) :
    contextBehind context (ps ++ [p]) = ⟨some p.token, .none⟩ := by
  simp [contextBehind]

/-- The context goes through one row and then through the other. -/
theorem contextBehind_append (context : Context) (ps qs : List Spelled) :
    contextBehind context (ps ++ qs) = contextBehind (contextBehind context ps) qs := by
  cases qs with
  | nil => simp [contextBehind]
  | cons q qs => simp [contextBehind, getLast?_cons]

theorem contextBehind_cons (context : Context) (p : Spelled) (ps : List Spelled) :
    contextBehind context (p :: ps) = contextBehind ⟨some p.token, .none⟩ ps := by
  cases ps with
  | nil => rfl
  | cons q qs => simp [contextBehind, getLast?_cons]

/-- Two rows are joined if each is, before what follows it. -/
theorem joined_append {context : Context} {ps qs : List Spelled} {next : List Char} :
    Joined context (ps ++ qs) next ↔
      Joined context ps (spelledChars qs ++ next) ∧
        Joined (contextBehind context ps) qs next := by
  induction ps generalizing context with
  | nil => simp [Joined, contextBehind]
  | cons p ps ih =>
    rw [cons_append, Joined, ih, Joined, contextBehind_cons, spelledChars_append,
      List.append_assoc, and_assoc, and_assoc]

/-! ### Steps of the reading -/

/-- The step at a spelling takes the token. -/
theorem scan_lexes {s : LexState} {token : Token} {w next : List Char}
    (h : Lexes s.context token w next) :
    scan s (w ++ next) = scan (s.take (.onLine token w.length)) next := by
  obtain ⟨c, cs, rfl, hstep⟩ := h
  rw [cons_append, scan, hstep s.line]
  -- The first character is taken by the match, the others by the step.
  show scan _ ((cs ++ next).drop ((c :: cs).length - 1)) = _
  rw [length_cons, Nat.add_sub_cancel, drop_left]

/-- A text that is the spelling of one token has this token and the end of the input. -/
theorem lexFrom_lexes {file : String} {line : Nat} {token : Token} {text : String}
    (h : Lexes (LexState.start file line).context token text.toList []) :
    lexFrom file line text = .ok [⟨token, line, true⟩, ⟨.done, line, true⟩] := by
  have hread := scan_lexes h
  rw [append_nil, scan] at hread
  rw [lexFrom, hread]
  rfl

/-- **A written symbol is read as itself**, with or without quotes, whatever its name holds. -/
theorem lexFrom_symbolText (file : String) (line : Nat) (name : String) :
    lexFrom file line (symbolText name) = .ok [⟨.symbol name, line, true⟩, ⟨.done, line, true⟩] :=
  lexFrom_lexes (lexes_symbol rfl rfl)

/-- The step at a blank only changes the gap. -/
theorem scan_blank (s : LexState) (rest : List Char) :
    scan s (' ' :: rest) = scan { s with gap := .blank } rest := by
  have hstart : StartsLine s.context (' ' :: rest) := startsLine_of_ne (by decide) (by decide)
  have hblank : isBlank ' ' = true := by decide
  have hstep : nextStep s.context s.line ' ' rest = .ok (.skip ⟨1, 0⟩) := by
    unfold nextStep
    simp only [hstart.no_comment, hstart.no_marker]
    simp [hblank]
  rw [scan, hstep]
  rfl

/-- Indentation changes the gap if there is any. -/
theorem scan_blanks (s : LexState) (n : Nat) (rest : List Char) :
    scan s (replicate n ' ' ++ rest) =
      scan { s with gap := if n = 0 then s.gap else .blank } rest := by
  induction n generalizing s with
  | zero => rfl
  | succ n ih =>
    rw [replicate_succ, cons_append, scan_blank, ih]
    congr 2
    split <;> rfl

/-- The step at a line end leaves a token for it. -/
theorem scan_newline {s : LexState} (hpending : s.pending = [])
    (hlast : s.context.last ≠ none ∧ s.context.last ≠ some .newline) (rest : List Char) :
    scan s ('\n' :: rest) =
      scan { s.push .newline with gap := .lineStart, line := s.line + 1 } rest := by
  have hstart : StartsLine s.context ('\n' :: rest) := startsLine_of_ne (by decide) (by decide)
  have hstep : nextStep s.context s.line '\n' rest = .ok .lineEnd := by
    unfold nextStep
    simp only [hstart.no_comment, hstart.no_marker]
    simp
  -- A line end counts only behind a token that is on its line.
  have hend : s.endLine = { s.push .newline with gap := .lineStart, line := s.line + 1 } := by
    unfold LexState.endLine
    simp only
    rw [if_neg]
    simpa [LexState.context] using hlast
  rw [scan, hstep, hpending]
  -- No heredoc waits for its body, so the next line is read as it stands.
  show scan (s.endLine.fill ⟨[], ⟨0, 0⟩⟩) (rest.drop 0) = _
  rw [drop_zero, hend]
  congr 1
  simp [LexState.fill, LexState.push, hpending]

/-! ### The reading of a joined text -/

namespace LexState

/-- The state behind a lead. -/
def afterLead (s : LexState) : Lead → LexState
  | .tight => s
  | .blank => { s with gap := .blank }
  | .newLine indent =>
    { s.push .newline with
      gap := if indent = 0 then .lineStart else .blank
      line := s.line + 1 }

/-- The state behind a spelled token. -/
def afterSpelled (s : LexState) (p : Spelled) : LexState :=
  (s.afterLead p.lead).take (.onLine p.token p.token.spelling.toList.length)

theorem context_afterLead (s : LexState) (lead : Lead) :
    (s.afterLead lead).context = lead.context s.context := by
  cases lead <;> simp [afterLead, Lead.context, context, push]

theorem context_afterSpelled (s : LexState) (p : Spelled) :
    (s.afterSpelled p).context = ⟨some p.token, .none⟩ := by
  simp [afterSpelled, context, take, push, Lexeme.onLine]

theorem pending_afterSpelled (s : LexState) (p : Spelled) :
    (s.afterSpelled p).pending = s.pending := by
  rcases p with ⟨_ | _ | _, _⟩ <;> rfl

theorem line_afterSpelled (s : LexState) (p : Spelled) :
    (s.afterSpelled p).line = s.line + p.lead.lines := by
  rcases p with ⟨_ | _ | _, _⟩ <;> rfl

theorem toList_afterSpelled (s : LexState) (p : Spelled) :
    (s.afterSpelled p).tokens.toList = s.tokens.toList ++ p.located s.line s.gap.isSpaced := by
  rcases p with ⟨_ | _ | indent, token⟩
  · simp [afterSpelled, afterLead, take, push, Lexeme.onLine, Spelled.located]
  · simp [afterSpelled, afterLead, take, push, Lexeme.onLine, Spelled.located, Gap.isSpaced]
  · by_cases h : indent = 0 <;>
      simp [afterSpelled, afterLead, take, push, Lexeme.onLine, Spelled.located, Gap.isSpaced, h]

theorem pending_foldl_afterSpelled (s : LexState) (ps : List Spelled) :
    (ps.foldl afterSpelled s).pending = s.pending := by
  induction ps generalizing s with
  | nil => rfl
  | cons p ps ih => rw [foldl_cons, ih, pending_afterSpelled]

/-- The tokens that are read are those of the row in their places. -/
theorem tokens_foldl_afterSpelled (s : LexState) (ps : List Spelled) :
    (ps.foldl afterSpelled s).tokens.toList =
      s.tokens.toList ++ place s.line s.gap.isSpaced ps := by
  induction ps generalizing s with
  | nil => simp [place]
  | cons p ps ih =>
    rw [foldl_cons, ih, toList_afterSpelled, line_afterSpelled, List.append_assoc]
    rfl

end LexState

/-- What leads a token is skipped. -/
theorem scan_lead {s : LexState} (hpending : s.pending = []) {lead : Lead}
    (hlead : lead.follows s.context) (rest : List Char) :
    scan s (lead.text.toList ++ rest) = scan (s.afterLead lead) rest := by
  cases lead with
  | tight => rfl
  | blank => exact scan_blank s rest
  | newLine indent =>
    have htext : (Lead.newLine indent).text.toList = '\n' :: replicate (2 * indent) ' ' := by
      simp [lineBreak, toList_pushn]
    rw [htext, cons_append, scan_newline hpending hlead, scan_blanks]
    -- Two blanks are written for a level, and the gap asks whether there are any.
    have hzero : 2 * indent = 0 ↔ indent = 0 := by omega
    simp only [LexState.afterLead, hzero]

/-- A joined text is read token by token. -/
theorem scan_joined {s : LexState} (hpending : s.pending = []) {ps : List Spelled}
    {next : List Char} (h : Joined s.context ps next) :
    scan s (spelledChars ps ++ next) = scan (ps.foldl LexState.afterSpelled s) next := by
  induction ps generalizing s with
  | nil => rfl
  | cons p ps ih =>
    obtain ⟨hlead, hlexes, hrest⟩ := h
    -- The context of `Joined` is that of the state the reading is in.
    rw [← s.context_afterLead] at hlexes
    rw [← s.context_afterSpelled] at hrest
    rw [spelledChars, List.append_assoc, List.append_assoc, scan_lead hpending hlead,
      scan_lexes hlexes]
    exact ih (by rw [← hpending]; exact s.pending_afterSpelled p) hrest

/-- **A joined text is read as the tokens it was spelled from.** -/
theorem lex_spelled {file text : String} {ps : List Spelled}
    (htext : text.toList = spelledChars ps) (h : Joined ⟨none, .lineStart⟩ ps []) :
    ∃ line, lex file text = .ok (place 1 true ps ++ [⟨.done, line, true⟩]) := by
  have hscan : scan (.start file 1) (spelledChars ps ++ []) = _ := scan_joined rfl h
  rw [append_nil, ← htext, scan] at hscan
  have hpending := LexState.pending_foldl_afterSpelled (.start file 1) ps
  have htokens := LexState.tokens_foldl_afterSpelled (.start file 1) ps
  rw [show (LexState.start file 1).tokens.toList = [] from rfl, nil_append] at htokens
  rw [lex, lexFrom, hscan]
  -- Of the last state only its tokens and its empty list of heredocs matter.
  generalize ps.foldl LexState.afterSpelled (.start file 1) = last at hpending htokens
  obtain ⟨_, tokens, gap, line, pending⟩ := last
  obtain rfl : pending = [] := hpending
  refine ⟨line, ?_⟩
  show Except.ok (tokens.push ⟨.done, line, true⟩).toList = _
  rw [Array.toList_push, htokens]
  rfl

end LaneScript
