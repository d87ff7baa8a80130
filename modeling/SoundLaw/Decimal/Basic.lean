/-!
# Decimal numbers

A decimal is a whole number of some power of ten. It is what a number looks like in a script,
and it is written positionally: never with an exponent, and with a fraction only when the power
of ten is negative.
-/

namespace SoundLaw

/-- The number `digits * 10 ^ exponent`. -/
structure Decimal where
  /-- The significant digits, read as one whole number. -/
  digits : Nat
  /-- The power of ten that the last significant digit counts. -/
  exponent : Int
deriving DecidableEq, Repr

namespace Decimal

/-- How many decimal digits a whole number is written with. -/
def width (n : Nat) : Nat :=
  (Nat.toDigits 10 n).length

/-- The positional notation of a decimal, without exponent or superfluous zeros at its front. -/
def positional (d : Decimal) : String :=
  let written := Nat.toDigits 10 d.digits
  match d.exponent with
  | .ofNat zeros => String.ofList (written ++ List.replicate zeros '0')
  | .negSucc places =>
    let places := places + 1
    let padded := List.replicate (places + 1 - written.length) '0' ++ written
    let whole := padded.length - places
    String.ofList (padded.take whole ++ '.' :: padded.drop whole)

/-- The same number without zeros at the end of its digits; zero keeps exponent zero. -/
def stripZeros : Nat → Decimal → Decimal
  | 0, d => d
  | fuel + 1, d =>
    if d.digits = 0 then ⟨0, 0⟩
    else if d.digits % 10 = 0 then stripZeros fuel ⟨d.digits / 10, d.exponent + 1⟩
    else d

/-- The form of a decimal whose digits end in no zero. -/
def normal (d : Decimal) : Decimal :=
  stripZeros (width d.digits) d

end Decimal

end SoundLaw
