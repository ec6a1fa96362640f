import LaneScript.Literal.Heredoc
import LaneScript.Literal.Numeral
import LaneScript.Literal.StringBody
import LaneScript.Token.Context

/-!
# Lexemes

A lexeme is a token with the extent of the text it is written with.  Each function here reads one
kind of lexeme from the start of a text; those that may find none give an option.
-/

namespace LaneScript

open Literal
open Text (isBlank isNameChar isNameStart isUppercase)

/-- A token and the extent of its text. -/
structure Lexeme where
  token : Token
  extent : Extent
  deriving DecidableEq, Repr

namespace Lexeme

/-- A lexeme on one line. -/
def onLine (token : Token) (length : Nat) : Lexeme := ⟨token, ⟨length, 0⟩⟩

/-! ### Names -/

/-- The mark `?` or `!` that ends a name.  It does not when it is the start of `?=` or `!=`; behind
`==` it belongs to the name again. -/
def nameMark : List Char → List Char
  | c :: rest =>
    if (c == '?' || c == '!') && (rest.head? != some '=' || (rest.drop 1).head? == some '=')
    then [c] else []
  | [] => []

/-- A single colon is next. -/
def startsWithColon : List Char → Bool
  | ':' :: rest => rest.head? != some ':'
  | _ => false

/-- A word, a constant or a label. -/
def name (context : Context) (text : List Char) : Lexeme :=
  let stem := text.takeWhile isNameChar
  let mark := nameMark (text.drop stem.length)
  let word := stem ++ mark
  let labelled := !context.afterDot && startsWithColon (text.drop word.length) && mark != ['?']
  if labelled then onLine (.label (String.ofList word)) (word.length + 1)
  else if (word.take 1).any isUppercase then onLine (.const (String.ofList word)) word.length
  else onLine (.word (String.ofList word)) word.length

/-- A variable whose mark is one or two `@`, from behind the first of them. -/
def atVariable (rest : List Char) : Except Fault Lexeme :=
  let (sigil, mark) : Sigil × Nat :=
    if rest.head? == some '@' then (.classLevel, 1) else (.instanceLevel, 0)
  let name := (rest.drop mark).takeWhile isNameChar
  if name.isEmpty then .error (.missingName '@')
  else .ok (onLine (.var sigil (String.ofList name)) (1 + mark + name.length))

/-- A global variable, from behind its `$`.  Where no name follows, one character that is not blank
is the name. -/
def globalVariable (rest : List Char) : Except Fault Lexeme :=
  let stem := rest.takeWhile isNameChar
  let name := if stem.isEmpty then (rest.take 1).filter (!isBlank ·) else stem
  if name.isEmpty then .error (.missingName '$')
  else .ok (onLine (.var .global (String.ofList name)) (1 + name.length))

/-! ### Strings, symbols and lists of words -/

/-- A literal between `opening` characters already counted and a closing character. -/
def closedBy (close : Char) (interpolated : Bool) (token : List StringPart → Token)
    (line opening : Nat) (text : List Char) : Except Fault Lexeme := do
  let (parts, extent) ← scanBody (some close) interpolated line text
  .ok ⟨token parts, ⟨opening + extent.length, extent.newlines⟩⟩

/-- A part of a quoted symbol as text; code is written out again. -/
def symbolText : StringPart → String
  | .text content => content
  | .code source _ => "#\x7b" ++ source ++ "\x7d"

/-- The mark that ends a symbol's name: `?`, `!` or `=`, unless `=` or `>` follows. -/
def symbolMark : List Char → List Char
  | c :: rest =>
    if (c == '?' || c == '!' || c == '=') && rest.head? != some '=' && rest.head? != some '>'
    then [c] else []
  | [] => []

/-- A symbol, from behind its colon. -/
def symbol? (context : Context) (line : Nat) (rest : List Char) : Except Fault (Option Lexeme) :=
  if rest.head? == some ':' || !context.allowsSymbol then .ok none
  else match rest.head? with
    | none => .ok none
    | some c =>
      if c == '"' then
        let token parts := Token.symbol (String.join (parts.map symbolText))
        (closedBy '"' true token line 2 (rest.drop 1)).map some
      else if isNameStart c then
        let stem := rest.takeWhile isNameChar
        let name := stem ++ symbolMark (rest.drop stem.length)
        .ok (some (onLine (.symbol (String.ofList name)) (1 + name.length)))
      else if rest.take 2 == ['[', ']'] then .ok (some (onLine (.symbol "[]") 3))
      else .ok none

/-- The character that closes what the given one opens. -/
def closerOf : Char → Char
  | '(' => ')'
  | '[' => ']'
  | '{' => '}'
  | '<' => '>'
  | c => c

/-- The kind of a `%` literal and the character that opens it, from behind the `%`, and how many
characters the two take.  Without a letter the literal is of the kind `Q`. -/
def percentHead? : List Char → Option (Char × Char × Nat)
  | kind :: rest =>
    if "wWiIqQ".toList.contains kind then
      match rest.head? with
      | some opener =>
        if "([\x7b<|!/".toList.contains opener then some (kind, opener, 2) else none
      | none => none
    else if "([\x7b<|!".toList.contains kind then some ('Q', kind, 1)
    else none
  | [] => none

/-- A list of words up to its closing character. -/
def wordList (symbols : Bool) (close : Char) (opening : Nat) (text : List Char) :
    Except Fault Lexeme :=
  let body := text.takeWhile (· != close)
  if text.length ≤ body.length then .error .unterminatedWordList
  else
    let items := (Text.words body).map String.ofList
    .ok ⟨.words symbols items, ⟨opening + body.length + 1, newlinesOf body⟩⟩

/-- A `%` literal, from behind the `%`. -/
def percent? (line : Nat) (rest : List Char) : Except Fault (Option Lexeme) :=
  match percentHead? rest with
  | none => .ok none
  | some (kind, opener, head) =>
    let close := closerOf opener
    let body := rest.drop head
    if kind == 'w' || kind == 'W' then (wordList false close (1 + head) body).map some
    else if kind == 'i' || kind == 'I' then (wordList true close (1 + head) body).map some
    else (closedBy close (kind == 'Q') .str line (1 + head) body).map some

/-! ### Regular expressions -/

/-- The length of a regular expression up to its closing slash.  A backslash takes the next
character with it, whatever it is; otherwise the expression stays on its line. -/
def regexLength? : List Char → Option Nat
  | [] => none
  | ['\\'] => none
  | '\\' :: _ :: rest => (regexLength? rest).map (· + 2)
  | c :: rest =>
    if c == '/' then some 0
    else if c == '\n' then none
    else (regexLength? rest).map (· + 1)

/-- A regular expression, from behind its opening slash. -/
def regex (rest : List Char) : Except Fault Lexeme :=
  match regexLength? rest with
  | none => .error .unterminatedRegex
  | some length =>
    let flags := (rest.drop (length + 1)).takeWhile fun c => "imxo".toList.contains c
    .ok (onLine (.regex (String.ofList (rest.take length)) (String.ofList flags))
      (length + 2 + flags.length))

/-! ### Marks and operators -/

/-- The marks of one character. -/
def punctuation? (c : Char) (rest : List Char) : Option Token :=
  match c with
  | '(' => some .lparen
  | ')' => some .rparen
  | '[' => some .lbracket
  | ']' => some .rbracket
  | '{' => some .lbrace
  | '}' => some .rbrace
  | ',' => some .comma
  | ';' => some .semicolon
  | '.' => if rest.head? == some '.' then none else some .dot
  | _ => none

/-- The operators and the marks of two characters, each before the ones it starts with. -/
def operatorTable : List (String × Token) :=
  let binary (op : BinaryOp) := (op.text, Token.op (.binary op))
  let compound (op : BinaryOp) := (op.text ++ "=", Token.op (.compound op))
  let other (op : Operator) := (op.text, Token.op op)
  [compound .pow, binary .compare, binary .caseEqual, other (.range true), compound .shiftLeft,
    compound .shiftRight, compound .and, compound .or,
    binary .pow, binary .equal, binary .notEqual, binary .greaterEqual, binary .lessEqual,
    binary .and, binary .or, binary .shiftLeft, binary .shiftRight, binary .isMatch,
    binary .notMatch, other (.range false), compound .add, compound .sub, compound .mul,
    compound .div, compound .mod, compound .bitOr, compound .bitAnd, compound .bitXor,
    ("=>", .arrow), ("->", .lambda), ("::", .scope), ("&.", .safeDot),
    binary .add, binary .sub, binary .mul, binary .div, binary .mod, other .assign, binary .less,
    binary .greater, other .bang, binary .bitAnd, binary .bitOr, binary .bitXor, other .tilde,
    other .question, other .colon]

/-- The first operator of the table that the text starts with. -/
def operator? (text : List Char) : Option Lexeme :=
  (operatorTable.find? fun row => row.1.toList.isPrefixOf text).map fun row =>
    onLine row.2 row.1.length

end Lexeme
end LaneScript
