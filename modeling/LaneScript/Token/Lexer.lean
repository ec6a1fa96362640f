import LaneScript.Token.Lexeme

/-!
# From text to tokens

`lexFrom` reads a text from left to right.  One `Step` of the reading depends only on the context
and on the text that remains: it skips something, ends a line, finds a lexeme, opens a heredoc or
stops.  The reader's state keeps the tokens found so far, the line, and the heredocs that were
opened on the line; when the line ends, their bodies are read and put into the tokens that hold
their places.

Every step takes at least one character, so the reading ends.
-/

namespace LaneScript

open Literal
open Text (isBlank isNameStart)

/-- What one step of the reading finds. -/
inductive Step where
  /-- Blank space, a comment or the join of two lines. -/
  | skip (extent : Extent)
  | lineEnd
  | lexeme (found : Lexeme)
  | heredoc (opener : HeredocOpener) (length : Nat)
  /-- The rest of the text is no part of the script. -/
  | stop
  deriving DecidableEq, Repr

/-- The extent of a block comment, from its first line to the end of the line that starts with
`=end`, without the line end. -/
def blockComment? (text : List Char) : Option Extent :=
  let line := text.takeWhile (· != '\n')
  match h : text.drop line.length with
  | [] => none
  | _ :: rest =>
    if "=end".toList.isPrefixOf rest then
      some ⟨line.length + 1 + (rest.takeWhile (· != '\n')).length, 1⟩
    else (blockComment? rest).map fun extent =>
      ⟨line.length + 1 + extent.length, extent.newlines + 1⟩
termination_by text.length
decreasing_by
  have := congrArg List.length h
  simp only [List.length_drop, List.length_cons] at this
  omega

/-- A line that ends the script is next. -/
def atEndMarker (text : List Char) : Bool :=
  "__END__".toList.isPrefixOf text && ((text.drop 7).take 1).all fun c => c == '\n' || c == '\r'

/-- A lexeme that may be there, or else what `other` finds. -/
def Step.orElse (attempt : Except Fault (Option Lexeme)) (other : Unit → Except Fault Step) :
    Except Fault Step :=
  match attempt with
  | .error fault => .error fault
  | .ok (some found) => .ok (.lexeme found)
  | .ok none => other ()

/-- The lexeme of a mark or an operator. -/
def markStep (c : Char) (rest : List Char) : Except Fault Step :=
  match Lexeme.punctuation? c rest with
  | some token => .ok (.lexeme (.onLine token 1))
  | none =>
    match Lexeme.operator? (c :: rest) with
    | some lexeme => .ok (.lexeme lexeme)
    | none => .error (.unexpectedChar c)

/-- The lexeme that starts with a character which is neither blank nor part of a name or number:
some characters open a literal where the context allows one. -/
def literalStep (context : Context) (line : Nat) (c : Char) (rest : List Char) :
    Except Fault Step :=
  if c == ':' then Step.orElse (Lexeme.symbol? context line rest) fun _ => markStep c rest
  else if c == '%' && context.allowsLiteral rest.head? then
    Step.orElse (Lexeme.percent? line rest) fun _ => markStep c rest
  else if c == '/' && context.allowsLiteral rest.head? then (Lexeme.regex rest).map .lexeme
  else if c == '<' && rest.head? == some '<' && context.allowsLiteral (rest.drop 1).head? then
    match heredocOpener? (rest.drop 1) with
    | some (opener, length) => .ok (.heredoc opener (2 + length))
    | none => markStep c rest
  else markStep c rest

/-- The next step of the reading, at a text that starts with `c`. -/
def nextStep (context : Context) (line : Nat) (c : Char) (rest : List Char) : Except Fault Step :=
  let text := c :: rest
  if context.gap == .lineStart && "=begin".toList.isPrefixOf text then
    match blockComment? text with
    | some extent => .ok (.skip extent)
    | none => .error .unterminatedComment
  else if context.gap == .lineStart && atEndMarker text then .ok .stop
  else if c == '#' then .ok (.skip ⟨(text.takeWhile (· != '\n')).length, 0⟩)
  else if c == '\\' && rest.head? == some '\n' then .ok (.skip ⟨2, 1⟩)
  else if c == '\n' then .ok .lineEnd
  else if isBlank c then .ok (.skip ⟨1, 0⟩)
  else if c == '"' then (Lexeme.closedBy '"' true .str line 1 rest).map .lexeme
  else if c == '\'' then (Lexeme.closedBy '\'' false .str line 1 rest).map .lexeme
  else if c == '\x60' then (Lexeme.closedBy '\x60' true .command line 1 rest).map .lexeme
  else if c.isDigit then
    (scanNumeral text).map fun (token, length) => .lexeme (.onLine token length)
  else if c == '@' then (Lexeme.atVariable rest).map .lexeme
  else if c == '$' then (Lexeme.globalVariable rest).map .lexeme
  else if isNameStart c then .ok (.lexeme (Lexeme.name context text))
  else literalStep context line c rest

/-- A heredoc whose body is still to be read: the line of its opener and the place of its token. -/
structure PendingHeredoc where
  opener : HeredocOpener
  line : Nat
  slot : Nat
  deriving DecidableEq, Repr

/-- The bodies of some heredocs: the parts for each place, and the extent of all bodies. -/
structure HeredocBodies where
  parts : List (Nat × List StringPart)
  extent : Extent
  deriving DecidableEq, Repr

/-- Reads the bodies of the heredocs in order.  `line` is the line of the file on which the text
starts. -/
def readBodies (file : String) :
    List PendingHeredoc → Nat → List Char → Except Failure HeredocBodies
  | [], _, _ => .ok ⟨[], ⟨0, 0⟩⟩
  | heredoc :: others, line, text =>
    match heredocLines? heredoc.opener text with
    | none =>
      .error ⟨file, heredoc.line, .unterminatedHeredoc (String.ofList heredoc.opener.id)⟩
    | some (lines, length) =>
      match heredoc.opener.parts line lines with
      | .error fault => .error ⟨file, line, fault⟩
      | .ok parts => do
        let bodies ← readBodies file others (line + lines.length + 1) (text.drop length)
        .ok ⟨(heredoc.slot, parts) :: bodies.parts,
          ⟨length + bodies.extent.length, lines.length + 1 + bodies.extent.newlines⟩⟩

/-- The state of the reading. -/
structure LexState where
  file : String
  tokens : Array Located
  gap : Gap
  line : Nat
  pending : List PendingHeredoc
  deriving DecidableEq, Repr

namespace LexState

/-- The state at the start of a text. -/
def start (file : String) (line : Nat) : LexState := ⟨file, #[], .lineStart, line, []⟩

/-- The place where the next token may start. -/
def context (s : LexState) : Context := ⟨s.tokens.back?.map (·.token), s.gap⟩

/-- Adds a token that starts here. -/
def push (s : LexState) (token : Token) : LexState :=
  { s with tokens := s.tokens.push ⟨token, s.line, s.gap.isSpaced⟩ }

/-- Passes over a text. -/
def skip (s : LexState) (text : List Char) (extent : Extent) : LexState :=
  { s with gap := .behind (text.take extent.length), line := s.line + extent.newlines }

/-- Passes over a lexeme, whose last character is never blank. -/
def take (s : LexState) (lexeme : Lexeme) : LexState :=
  { s.push lexeme.token with gap := .none, line := s.line + lexeme.extent.newlines }

/-- Passes over the opener of a heredoc and keeps a place for its body. -/
def openHeredoc (s : LexState) (opener : HeredocOpener) : LexState :=
  { s.push (.str []) with
    gap := .none
    pending := s.pending ++ [⟨opener, s.line, s.tokens.size⟩] }

/-- Ends a line.  An empty line has no token, and neither have the line ends before the first
token. -/
def endLine (s : LexState) : LexState :=
  let last := s.tokens.back?.map (·.token)
  let s' := if last == none || last == some .newline then s else s.push .newline
  { s' with gap := .lineStart, line := s.line + 1 }

/-- Puts the bodies of the heredocs into their places. -/
def fill (s : LexState) (bodies : HeredocBodies) : LexState :=
  { s with
    tokens := bodies.parts.foldl
      (fun tokens (slot, parts) => tokens.modify slot fun t => { t with token := .str parts })
      s.tokens
    line := s.line + bodies.extent.newlines
    pending := [] }

end LexState

/-- Reads a text to its end. -/
def scan (s : LexState) : List Char → Except Failure LexState
  | [] => .ok s
  | c :: rest =>
    match nextStep s.context s.line c rest with
    | .error fault => .error ⟨s.file, s.line, fault⟩
    | .ok .stop => .ok s
    | .ok (.skip extent) => scan (s.skip (c :: rest) extent) (rest.drop (extent.length - 1))
    | .ok (.lexeme lexeme) => scan (s.take lexeme) (rest.drop (lexeme.extent.length - 1))
    | .ok (.heredoc opener length) => scan (s.openHeredoc opener) (rest.drop (length - 1))
    | .ok .lineEnd =>
      match readBodies s.file s.pending (s.line + 1) rest with
      | .error failure => .error failure
      | .ok bodies => scan (s.endLine.fill bodies) (rest.drop bodies.extent.length)
termination_by text => text.length
decreasing_by all_goals simp only [List.length_drop, List.length_cons]; omega

/-- The tokens of a text of the file whose first line has the given number.  The last one marks the
end of the input. -/
def lexFrom (file : String) (line : Nat) (source : String) : Except Failure (List Located) := do
  let s ← scan (.start file line) source.toList
  match s.pending with
  | heredoc :: _ =>
    .error ⟨file, heredoc.line, .unterminatedHeredoc (String.ofList heredoc.opener.id)⟩
  | [] => .ok (s.tokens.push ⟨.done, s.line, true⟩).toList

/-- The tokens of a script. -/
def lex (file source : String) : Except Failure (List Located) := lexFrom file 1 source

end LaneScript
