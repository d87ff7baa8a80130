import SoundLaw.Decimal.Basic

/-!
# The shortest decimal of a binary number

Of the decimals that are rounded to a given binary number, the one with the fewest digits names
it; among several of that length the nearest does, and a tie goes upwards. The search runs over
the decimal grids of one digit, two digits and so on. On each grid only the two neighbours of
the number can be the answer, and all comparisons are exact.
-/

namespace SoundLaw.Decimal

/-- A positive binary number `mantissa * 2 ^ exponent` together with what rounds to it. -/
structure Binary where
  /-- The whole number of units in the last place. -/
  mantissa : Nat
  /-- The power of two that one unit counts. -/
  exponent : Int
  /-- Whether the next smaller number is only half a unit away. -/
  narrowBelow : Bool
deriving DecidableEq, Repr

/-- `a * 2 ^ q` and `b * 10 ^ p` as whole numbers of a common unit. -/
def aligned (a : Nat) (q : Int) (b : Nat) (p : Int) : Nat × Nat :=
  (a * Nat.pow 2 q.toNat * Nat.pow 10 (-p).toNat, b * Nat.pow 10 p.toNat * Nat.pow 2 (-q).toNat)

/-- The number of quarter units between zero and the number, its lower and its upper bound. -/
def Binary.quarters (x : Binary) : Nat × Nat × Nat :=
  let centre := 4 * x.mantissa
  (centre, centre - (if x.narrowBelow then 1 else 2), centre + 2)

/-- Whether `digits * 10 ^ p` is rounded to the number. A bound itself belongs to the number
with the even mantissa. -/
def Binary.admits (x : Binary) (digits : Nat) (p : Int) : Bool :=
  let (_, low, high) := x.quarters
  let (lowUnits, here) := aligned low (x.exponent - 2) digits p
  let (highUnits, _) := aligned high (x.exponent - 2) digits p
  if x.mantissa % 2 = 0 then lowUnits ≤ here && here ≤ highUnits
  else lowUnits < here && here < highUnits

/-- The whole multiple of `10 ^ p` at or below the number. -/
def Binary.below (x : Binary) (p : Int) : Nat :=
  let (units, step) := aligned x.mantissa x.exponent 1 p
  units / step

/-- Whether the multiple of `10 ^ p` above the number is at least as near as the one below. -/
def Binary.roundsUp (x : Binary) (digits : Nat) (p : Int) : Bool :=
  let (units, step) := aligned x.mantissa x.exponent 1 p
  step ≤ 2 * (units - digits * step)

/-- The answer on the grid of `10 ^ p`, if a multiple of `10 ^ p` is rounded to the number. -/
def Binary.onGrid (x : Binary) (p : Int) : Option Decimal :=
  let digits := x.below p
  match x.admits digits p, x.admits (digits + 1) p with
  | true, true => some ⟨if x.roundsUp digits p then digits + 1 else digits, p⟩
  | true, false => some ⟨digits, p⟩
  | false, true => some ⟨digits + 1, p⟩
  | false, false => none

/-- The number of decimal places before the point; negative for small fractions. -/
def Binary.magnitude (x : Binary) : Int :=
  Int.ofNat (width (x.below (-400))) - 400

/-- The shortest decimal that is rounded to the number. Seventeen digits always suffice. -/
def shortest (x : Binary) : Decimal :=
  let magnitude := x.magnitude
  let found := (List.range 17).findSome? fun (n : Nat) => x.onGrid (magnitude - (n + 1))
  (found.getD ⟨x.below (magnitude - 17), magnitude - 17⟩).normal

end SoundLaw.Decimal
