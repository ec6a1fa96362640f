import LaneScript.Number.Shortest

/-!
# Written numbers

A number is written with its shortest digits, either in positional form or with an exponent.  The
places where numbers are written differ in where the one ends and the other begins, in whether an
integral number keeps its point, and in the sign of an exponent; a `Style` holds these decisions.
-/

namespace LaneScript.Number

/-- How a place writes its numbers. -/
structure Style where
  /-- The exponents of the leading digit that are written in positional form, as a half-open
  interval; without one, all are. -/
  positional : Option (Int × Int)
  /-- An integral number in positional form ends in `.0`. -/
  keepsPoint : Bool
  /-- A positive exponent has a plus sign. -/
  signsExponent : Bool
  tie : Tie
  deriving DecidableEq, Repr

namespace Style

/-- Positional form, without a point in an integral number. -/
def plain : Style := ⟨none, false, false, .up⟩

/-- The form in which messages show numbers. -/
def diagnostic : Style := ⟨some (-4, 16), true, false, .up⟩

/-- The form of numbers in JSON. -/
def json : Style := ⟨some (-5, 16), true, true, .even⟩

end Style

/-- The characters of a natural number. -/
def decimalChars (n : Nat) : List Char := Nat.toDigits 10 n

/-- A decimal in positional form. -/
def positionalText (keepsPoint : Bool) (d : Decimal) : String :=
  let digits := decimalChars d.digits
  let whole : Int := digits.length + d.exponent
  if 0 ≤ d.exponent then
    String.ofList (digits ++ List.replicate d.exponent.toNat '0')
      ++ (if keepsPoint then ".0" else "")
  else if 0 < whole then
    String.ofList (digits.take whole.toNat) ++ "." ++ String.ofList (digits.drop whole.toNat)
  else "0." ++ String.ofList (List.replicate whole.natAbs '0' ++ digits)

/-- A decimal with an exponent: one digit, the others behind a point, and the power of ten. -/
def exponentText (signsExponent : Bool) (d : Decimal) : String :=
  let digits := decimalChars d.digits
  let power : Int := digits.length + d.exponent - 1
  String.ofList (digits.take 1)
    ++ (if digits.length ≤ 1 then "" else "." ++ String.ofList (digits.drop 1))
    ++ "e" ++ (if signsExponent && 0 < power then "+" else "") ++ toString power

namespace Style

/-- A decimal in positional form or with an exponent, as the style has it. -/
def decimalText (style : Style) (d : Decimal) : String :=
  let power : Int := (decimalChars d.digits).length + d.exponent - 1
  match style.positional with
  | none => positionalText style.keepsPoint d
  | some (low, high) =>
    if low ≤ power && power < high then positionalText style.keepsPoint d
    else exponentText style.signsExponent d

/-- A number in the style. -/
def text (style : Style) : Binary64 → String
  | .infinite negative => if negative then "-inf" else "inf"
  | .finite negative mantissa exponent =>
    (if negative then "-" else "")
      ++ (if mantissa = 0 then positionalText style.keepsPoint ⟨0, 0⟩
          else style.decimalText (shortest style.tie mantissa exponent))

end Style

namespace Binary64

/-- The magnitude of an integral number. -/
def natural? : Binary64 → Option Nat
  | .finite _ mantissa exponent =>
    if 0 ≤ exponent then some (mantissa * Nat.pow 2 exponent.toNat)
    else if mantissa % Nat.pow 2 exponent.natAbs = 0 then
      some (mantissa / Nat.pow 2 exponent.natAbs)
    else none
  | .infinite _ => none

/-- The number as a literal of the script language: an integral number below `10^16` keeps a point,
so that it reads back as a number of this kind. -/
def literalText (x : Binary64) : String :=
  match x, x.natural? with
  | .finite negative _ _, some n =>
    if n < Nat.pow 10 16 then (if negative then "-" else "") ++ toString n ++ ".0"
    else Style.plain.text x
  | x, _ => Style.plain.text x

end Binary64

end LaneScript.Number
