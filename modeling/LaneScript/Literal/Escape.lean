import LaneScript.Fault
import LaneScript.Number.Digits

/-!
# Escape sequences

`decodeEscape` reads what stands behind a backslash in an interpolated literal.  It gives the
characters that the sequence denotes, of which an escaped line end has none and a braced list of
code points may have many, and how many characters of the text it is written with.
-/

namespace LaneScript.Literal

open Number (isDigitOf ofDigits)

/-- The character whose code point the digits denote. -/
def codePoint (radix : Nat) (digits : List Char) : Except Fault Char :=
  let code := ofDigits radix digits
  if h : code.isValidChar then .ok (Char.ofNatAux code h)
  else .error (.invalidEscape (String.ofList digits))

/-- The digits of the radix at the start of a text, `most` of them at most. -/
def digitRun (radix most : Nat) (text : List Char) : List Char :=
  (text.take most).takeWhile (isDigitOf radix)

theorem length_digitRun_le (radix most : Nat) (text : List Char) :
    (digitRun radix most text).length ≤ text.length :=
  Nat.le_trans (List.takeWhile_sublist _).length_le (List.length_take_le' _ _)

/-- The code points between the braces of an escape such as `\u{63 61 66}`, from behind the opening
brace.  There is at least one, of up to six digits each, and blanks may stand between them. -/
def bracedCodePoints (seen : Bool) (text : List Char) : Except Fault (List Char × Nat) :=
  let blanks := text.takeWhile (· == ' ')
  let rest := text.drop blanks.length
  if seen && rest.head? == some '}' then .ok ([], blanks.length + 1)
  else
    let digits := digitRun 16 6 rest
    if digits.length = 0 then .error .invalidUnicodeEscape
    else do
      let c ← codePoint 16 digits
      let (more, length) ← bracedCodePoints true (rest.drop digits.length)
      .ok (c :: more, blanks.length + digits.length + length)
termination_by text.length
decreasing_by
  have : digits.length ≤ rest.length := length_digitRun_le 16 6 rest
  have : rest.length ≤ text.length := by simp [rest]
  have : (rest.drop digits.length).length < text.length := by
    rw [List.length_drop]
    omega
  exact this

/-- A character that one letter stands for. -/
def letterEscape? : Char → Option Char
  | 'n' => some '\n'
  | 't' => some '\t'
  | 'r' => some '\r'
  | 'e' => some '\x1b'
  | 's' => some ' '
  | 'a' => some '\x07'
  | 'b' => some '\x08'
  | 'v' => some '\x0b'
  | 'f' => some '\x0c'
  | _ => none

/-- The characters of the escape sequence whose text, without its backslash, the list starts with,
and the number of characters of that text.  A character that begins no sequence stands for
itself. -/
def decodeEscape : List Char → Except Fault (List Char × Nat)
  | [] => .error .unterminatedEscape
  | c :: rest =>
    match letterEscape? c with
    | some decoded => .ok ([decoded], 1)
    | none =>
      if c == '\n' then .ok ([], 1)
      else if isDigitOf 8 c then do
        let digits := digitRun 8 3 (c :: rest)
        let decoded ← codePoint 8 digits
        .ok ([decoded], digits.length)
      else if c == 'x' then
        let digits := digitRun 16 2 rest
        if digits.isEmpty then .error .invalidHexEscape
        else do
          let decoded ← codePoint 16 digits
          .ok ([decoded], 1 + digits.length)
      else if c == 'u' then
        if rest.head? == some '{' then do
          let (decoded, length) ← bracedCodePoints false (rest.drop 1)
          .ok (decoded, 2 + length)
        else
          let digits := digitRun 16 4 rest
          if digits.length != 4 then .error .invalidUnicodeEscape
          else do
            let decoded ← codePoint 16 digits
            .ok ([decoded], 5)
      else .ok ([c], 1)

end LaneScript.Literal
