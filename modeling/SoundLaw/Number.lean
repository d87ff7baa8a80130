import SoundLaw.Decimal.Shortest
import SoundLaw.Decimal.Reading

/-!
# Numbers of a script

Numbers are binary floating-point numbers of double precision. Their full notation is the
shortest decimal that reads back as the same number. Scripts print whole numbers of moderate
size without a sign on zero, and use whole numbers in range as indices.
-/

namespace SoundLaw.Number

/-- Sign, exponent field and fraction field of a number. -/
def fields (x : Float) : Bool × Nat × Nat :=
  let bits := x.toBits.toNat
  (bits / Nat.pow 2 63 == 1, bits / Nat.pow 2 52 % Nat.pow 2 11, bits % Nat.pow 2 52)

/-- The size of a finite number as a whole number of a power of two. -/
def magnitude (x : Float) : Decimal.Binary :=
  let (_, exponent, fraction) := fields x
  if exponent = 0 then ⟨fraction, -1074, false⟩
  else ⟨fraction + Nat.pow 2 52, (exponent : Int) - 1075, fraction == 0 && exponent > 1⟩

/-- The full notation of a number: the shortest decimal that reads back, without an exponent. -/
def display (x : Float) : String :=
  if x.isNaN then "NaN"
  else
    let sign := if (fields x).1 then "-" else ""
    if x.isInf then sign ++ "inf"
    else
      let size := magnitude x
      if size.mantissa = 0 then sign ++ "0" else sign ++ (Decimal.shortest size).positional

/-- Whether a number is finite and has no fractional part. -/
def isWhole (x : Float) : Bool :=
  x.isFinite && x.floor == x

/-- The whole number that a finite number is, its fractional part dropped. -/
def toInt (x : Float) : Int :=
  let size := magnitude x
  let whole := size.mantissa * Nat.pow 2 size.exponent.toNat / Nat.pow 2 (-size.exponent).toNat
  if (fields x).1 then -(whole : Int) else whole

/-- The text of a number in a script: whole numbers of moderate size are written as such. -/
def text (x : Float) : String :=
  if isWhole x && x.abs < 1e15 then toString (toInt x) else display x

/-- The index into a sized value of `length` elements that a number stands for. -/
def index? (x : Float) (length : Nat) : Option Nat :=
  if !isWhole x || x < 0.0 || x ≥ Float.ofNat length then none else some (toInt x).toNat

/-- The remainder of a division that rounds towards zero, worked out exactly. It has the sign of
the dividend. -/
def remainder (x y : Float) : Float :=
  if x.isNaN || y.isNaN || x.isInf || y == 0.0 then 0.0 / 0.0
  else if y.isInf then x
  else
    let (a, b) := (magnitude x, magnitude y)
    let unit := min a.exponent b.exponent
    let rest := (a.mantissa * Nat.pow 2 (a.exponent - unit).toNat) %
      (b.mantissa * Nat.pow 2 (b.exponent - unit).toNat)
    let size := (Float.ofNat rest).scaleB unit
    if (fields x).1 then -size else size

end SoundLaw.Number
