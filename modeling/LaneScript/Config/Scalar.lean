import LaneScript.Config.Scanner
import LaneScript.Config.Toml
import LaneScript.Number.Binary64

/-!
# Values without parts

A value of a TOML file that is not made of others is a string, a truth value, a number, a date or a
time.  Dates and numbers start alike, so a date is looked for first, then a float, and what is
neither is an integer.
-/

namespace LaneScript.Config.Scanner

open Number (Binary64 ofDigits isDigitOf)

/-! ### Numbers -/

/-- The digits of a number of the given base, with single underscores between them. -/
def digits (base : Nat) : Scanner (List Char) := do
  let text ← takeClass fun c => isDigitOf base c || c == '_'
  let doubled := (text.zip (text.drop 1)).any fun (a, b) => a == '_' && b == '_'
  if text.isEmpty || text.head? == some '_' || text.getLast? == some '_' || doubled then failure
  else return text.filter (· != '_')

/-- The integer, if 64 bits hold it. -/
def bounded (value : Int) : Scanner Int :=
  if -(Nat.pow 2 63) ≤ value && value < Nat.pow 2 63 then return value else failure

/-- Takes a sign, which says whether a number is negative. -/
def sign : Scanner Bool := do
  if ← takes "-" then return true
  let _ ← takes "+"
  return false

/-- The digits of a decimal number, which has no leading zero. -/
def decimal : Scanner (List Char) := do
  let text ← digits 10
  if 1 < text.length && text.head? == some '0' then failure
  return text

/-- An integer of 64 bits. -/
def integer : Scanner Int := do
  if ← takes "0x" then bounded (ofDigits 16 (← digits 16))
  else if ← takes "0o" then bounded (ofDigits 8 (← digits 8))
  else if ← takes "0b" then bounded (ofDigits 2 (← digits 2))
  else
    let negative ← sign
    let magnitude : Int := ofDigits 10 (← decimal)
    bounded (if negative then -magnitude else magnitude)

/-- The exponent of a float. -/
def exponent : Scanner Int := do
  take "e" <|> take "E"
  let negative ← sign
  let magnitude : Int := ofDigits 10 (← digits 10)
  return if negative then -magnitude else magnitude

/-- A float, which has a fraction, an exponent or both.  A positive one that rounds to infinity is
refused. -/
def float : Scanner Unit := do
  let negative ← sign
  let whole ← decimal
  let fraction ← (do take "."; digits 10) <|> pure []
  let power ← if fraction.isEmpty then exponent else exponent <|> pure 0
  let text := whole ++ fraction
  match Binary64.ofDecimal (ofDigits 10 text) text.length (power - fraction.length) with
  | .infinite _ => if !negative then failure
  | .finite .. => return ()

/-- An infinite float, or one that is not a number. -/
def specialFloat : Scanner Unit := do
  let _ ← sign
  take "inf" <|> take "nan"

/-! ### Dates and times -/

/-- A number with the given count of digits, between the given bounds. -/
def field (size low high : Nat) : Scanner Nat := do
  let text := (← get).take size
  let value := ofDigits 10 text
  if text.length < size || text.any (!·.isDigit) || value < low || high < value then failure
  set ((← get).drop size)
  return value

/-- The number of days of a month. -/
def daysOf (year month : Nat) : Nat :=
  if month = 2 then
    if year % 4 = 0 ∧ (year % 100 ≠ 0 ∨ year % 400 = 0) then 29 else 28
  else if month ∈ [4, 6, 9, 11] then 30
  else 31

/-- A day of the calendar. -/
def date : Scanner Unit := do
  let year ← field 4 0 9999
  take "-"
  let month ← field 2 1 12
  take "-"
  let _ ← field 2 1 (daysOf year month)

/-- A time of the day, to the second or finer; a minute may have a leap second. -/
def time : Scanner Unit := do
  let _ ← field 2 0 23
  take ":"
  let _ ← field 2 0 59
  take ":"
  let _ ← field 2 0 60
  if ← takes "." then
    if (← takeClass Char.isDigit).isEmpty then failure

/-- The distance of a time from the universal time. -/
def timeOffset : Scanner Unit := do
  if !(← takes "Z" <||> takes "z") then
    take "+" <|> take "-"
    let _ ← field 2 0 23
    take ":"
    let _ ← field 2 0 59

/-- A date, a time, or both with or without an offset. -/
def dateTime : Scanner Unit :=
  (do date
      (do take "T" <|> take "t" <|> take " "
          time
          timeOffset <|> pure ()) <|> pure ())
    <|> time

/-! ### Scalars -/

/-- A value without parts. -/
def scalar : Scanner Toml := do
  match ← next? with
  | some '"' => return .str (← string '"')
  | some '\'' => return .str (← string '\'')
  | some 't' =>
    take "true"
    return .bool true
  | some 'f' =>
    take "false"
    return .bool false
  | _ =>
    (do dateTime <|> float <|> specialFloat; return .other) <|> (return .int (← integer))

end LaneScript.Config.Scanner
