import LaneScript.Fault
import LaneScript.Number.Digits

/-!
# Numerals

An integer may be written in base sixteen, two, eight or ten behind a mark, in base eight behind a
leading zero, or plainly in base ten; underscores may divide its digits.  An integer from `2^63`
upward keeps its text in place of a value.  A decimal point with a digit behind it, or an exponent,
makes the numeral a binary64 number.
-/

namespace LaneScript.Literal

open Number (Binary64 isDigitOf ofDigits)

/-- Integers from here upward have no value of their own. -/
def intBound : Nat := Nat.pow 2 63

/-- The radix of a marked integer and the length of its mark. -/
def radixMark? : List Char → Option (Nat × Nat)
  | '0' :: c :: _ =>
    if c == 'x' || c == 'X' then some (16, 2)
    else if c == 'b' || c == 'B' then some (2, 2)
    else if c == 'o' || c == 'O' then some (8, 2)
    else if c == 'd' || c == 'D' then some (10, 2)
    else if isDigitOf 8 c || c == '_' then some (8, 1)
    else none
  | _ => none

/-- A text without its underscores. -/
def withoutUnderscores (text : List Char) : List Char := text.filter (· != '_')

/-- The token of an integer: its value, or its text where the value is too great. -/
def integerToken (radix : Nat) (digits text : List Char) : Token :=
  let value := ofDigits radix digits
  if value < intBound then .int value else .bigInt (String.ofList text)

/-- A digit of the radix or an underscore. -/
def isNumeralChar (radix : Nat) (c : Char) : Bool := isDigitOf radix c || c == '_'

/-- The fraction at the start of a text, with its point; empty when there is none. -/
def fraction : List Char → List Char
  | '.' :: c :: rest => if c.isDigit then '.' :: (c :: rest).takeWhile (isNumeralChar 10) else []
  | _ => []

/-- The sign of an exponent at the start of a text. -/
def exponentSign : List Char → List Char
  | '+' :: _ => ['+']
  | '-' :: _ => ['-']
  | _ => []

/-- The exponent at the start of a text, with its mark; empty when there is none. -/
def exponentPart : List Char → List Char
  | c :: rest =>
    if c == 'e' || c == 'E' then
      let sign := exponentSign rest
      let digits := (rest.drop sign.length).takeWhile Char.isDigit
      if digits.isEmpty then [] else c :: sign ++ digits
    else []
  | [] => []

/-- The value of an exponent with its mark; zero when it is empty. -/
def exponentValue (part : List Char) : Int :=
  let sign := exponentSign (part.drop 1)
  let value := ofDigits 10 (part.drop (1 + sign.length))
  if sign == ['-'] then -(value : Int) else value

/-- The binary64 number of a numeral with the given whole part, fraction and exponent, all without
underscores. -/
def floatValue (whole frac exponent : List Char) : Binary64 :=
  let places := frac.drop 1
  let digits := whole ++ places
  Binary64.ofDecimal (ofDigits 10 digits) digits.length (exponentValue exponent - places.length)

/-- The token of the numeral that the text starts with, and the number of its characters.  The text
starts with a digit. -/
def scanNumeral (text : List Char) : Except Fault (Token × Nat) :=
  match radixMark? text with
  | some (radix, mark) =>
    let body := (text.drop mark).takeWhile (isNumeralChar radix)
    let written := withoutUnderscores (text.take (mark + body.length))
    let digits := withoutUnderscores body
    if digits.isEmpty then .error (.invalidNumber (String.ofList written))
    else .ok (integerToken radix digits written, mark + body.length)
  | none =>
    let whole := text.takeWhile (isNumeralChar 10)
    let frac := fraction (text.drop whole.length)
    let exponent := exponentPart (text.drop (whole.length + frac.length))
    let length := whole.length + frac.length + exponent.length
    let digits := withoutUnderscores whole
    if frac.isEmpty && exponent.isEmpty then .ok (integerToken 10 digits digits, length)
    else .ok (.float (floatValue digits (withoutUnderscores frac) exponent), length)

end LaneScript.Literal
