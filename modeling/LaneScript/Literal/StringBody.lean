import LaneScript.Literal.Escape
import LaneScript.Literal.Interpolation

/-!
# The body of a string

A string body is a run of characters and of interpolated code.  `scanPieces` reads it piece by
piece, and `joinPieces` gathers neighbouring characters into texts: a body has a text only where
characters stand, except that an empty body is one empty text.
-/

namespace LaneScript.Literal

/-- One piece of a string body. -/
inductive Piece where
  | char (c : Char)
  | code (source : String) (line : Nat)
  deriving DecidableEq, Repr

/-- The parts made of some pieces, when `pending` holds the characters before them, last first. -/
def joinAfter (pending : List Char) : List Piece → List StringPart
  | [] => if pending.isEmpty then [] else [.text (String.ofList pending.reverse)]
  | .char c :: rest => joinAfter (c :: pending) rest
  | .code source line :: rest =>
    if pending.isEmpty then .code source line :: joinAfter [] rest
    else .text (String.ofList pending.reverse) :: .code source line :: joinAfter [] rest

/-- The parts of a string: neighbouring characters form one text, and no pieces the empty text. -/
def joinPieces (pieces : List Piece) : List StringPart :=
  if pieces.isEmpty then [.text ""] else joinAfter [] pieces

/-- What was read of a text: how many of its characters, and how many line ends among them. -/
structure Extent where
  length : Nat
  newlines : Nat
  deriving DecidableEq, Repr

/-- How many line ends a text has. -/
def newlinesOf (text : List Char) : Nat := text.count '\n'

/-- The pieces of a string body up to the character that closes it, and the extent of the body with
that character.  Without a closing character the body is the whole text.  Escapes and code are read
where the literal is interpolated; otherwise a backslash only keeps a backslash or the closing
character from its meaning. -/
def scanPieces (close : Option Char) (interpolated : Bool) (line : Nat) :
    List Char → Except Fault (List Piece × Extent)
  | [] => if close.isSome then .error .unterminatedString else .ok ([], ⟨0, 0⟩)
  | c :: rest =>
    if some c == close then .ok ([], ⟨1, 0⟩)
    else if c == '\\' then
      match rest.head? with
      | none => .error .unterminatedEscape
      | some next =>
        let crossed := newlinesOf [next]
        if interpolated then do
          let (decoded, length) ← decodeEscape rest
          let (pieces, extent) ←
            scanPieces close interpolated (line + crossed) (rest.drop length)
          .ok (decoded.map .char ++ pieces,
            ⟨1 + length + extent.length, crossed + extent.newlines⟩)
        else do
          let kept := if next == '\\' || some next == close then [next] else ['\\', next]
          let (pieces, extent) ← scanPieces close interpolated (line + crossed) (rest.drop 1)
          .ok (kept.map .char ++ pieces, ⟨2 + extent.length, crossed + extent.newlines⟩)
    else if interpolated && c == '#' && rest.head? == some '{' then
      match closingBrace (rest.drop 1) with
      | none => .error .unterminatedInterpolation
      | some length => do
        let source := (rest.drop 1).take length
        let crossed := newlinesOf source
        let (pieces, extent) ←
          scanPieces close interpolated (line + crossed) (rest.drop (length + 2))
        .ok (.code (String.ofList source) line :: pieces,
          ⟨length + 3 + extent.length, crossed + extent.newlines⟩)
    else do
      let crossed := newlinesOf [c]
      let (pieces, extent) ← scanPieces close interpolated (line + crossed) rest
      .ok (.char c :: pieces, ⟨1 + extent.length, crossed + extent.newlines⟩)
termination_by text => text.length
decreasing_by all_goals simp only [List.length_drop, List.length_cons]; omega

/-- The parts of a string body and its extent. -/
def scanBody (close : Option Char) (interpolated : Bool) (line : Nat) (text : List Char) :
    Except Fault (List StringPart × Extent) := do
  let (pieces, extent) ← scanPieces close interpolated line text
  .ok (joinPieces pieces, extent)

end LaneScript.Literal
