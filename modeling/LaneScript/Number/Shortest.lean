import LaneScript.Number.Binary64

/-!
# The shortest decimal of a binary number

Every real number close enough to `m · 2^q` rounds to it, and among the decimals that do there is
a coarsest kind: multiples of the highest power of ten that the interval allows.  A decimal on that
grid has the fewest digits of all that read back as the same number, and the one nearest to
`m · 2^q` is chosen.  The search walks the powers of ten downward and tests the two neighbours of
the number on each grid, in natural numbers only.
-/

namespace LaneScript.Number

/-- Which of two equally near decimals is written. -/
inductive Tie where
  /-- the greater one -/
  | up
  /-- the one whose last digit is even -/
  | even
  deriving DecidableEq, Repr

/-- A decimal `digits · 10^exponent`. -/
structure Decimal where
  digits : Nat
  exponent : Int
  deriving DecidableEq, Repr

namespace Shortest

/-- Four times the least number that rounds to `m · 2^q`, in units of `2^q`.  Below a power of two
the numbers lie twice as close, so the interval is shorter there. -/
def lower (m : Nat) (q : Int) : Nat :=
  if m = Nat.pow 2 52 ∧ Binary64.minExponent < q then 4 * m - 1 else 4 * m - 2

/-- Four times the greatest number that rounds to `m · 2^q`, in units of `2^q`. -/
def upper (m : Nat) : Nat := 4 * m + 2

/-- The grid of the multiples of `10^k` beside the one of the multiples of `2^(q-2)`: both steps in
a common unit. -/
def steps (q k : Int) : Nat × Nat :=
  (Nat.pow 10 k.toNat * Nat.pow 2 (2 - q).toNat,
    Nat.pow 2 (q - 2).toNat * Nat.pow 10 (-k).toNat)

/-- The multiple of `10^k` nearest to `m · 2^q`, if one of its two neighbours there rounds to
`m · 2^q`.  The ends of the interval belong to it exactly when `m` is even. -/
def onGrid (tie : Tie) (m : Nat) (q k : Int) : Option Nat :=
  let (ten, two) := steps q k
  let rounds (c : Nat) : Bool :=
    if m % 2 = 0 then lower m q * two ≤ c * ten && c * ten ≤ upper m * two
    else lower m q * two < c * ten && c * ten < upper m * two
  let below := 4 * m * two / ten
  match rounds below, rounds (below + 1) with
  | false, false => none
  | true, false => some below
  | false, true => some (below + 1)
  | true, true =>
    -- twice the number beside twice the middle of its neighbours
    let twice := 2 * (4 * m * two)
    let middle := (2 * below + 1) * ten
    if twice < middle then some below
    else if middle < twice then some (below + 1)
    else match tie with
      | .up => some (below + 1)
      | .even => some (below + below % 2)

/-- The first grid with a hit, from `10^k` downward. -/
def search (tie : Tie) (m : Nat) (q : Int) : Nat → Int → Decimal
  | 0, k => ⟨m, k⟩
  | steps + 1, k =>
    match onGrid tie m q k with
    | some digits => ⟨digits, k⟩
    | none => search tie m q steps (k - 1)

end Shortest

/-- The decimal with the fewest digits that reads back as `m · 2^q`, for a positive `m`.  No
binary64 number reaches `10^309`, and every one is told apart by seventeen digits, so the search
ends above `10^-345`. -/
def shortest (tie : Tie) (m : Nat) (q : Int) : Decimal := Shortest.search tie m q 655 309

end LaneScript.Number
