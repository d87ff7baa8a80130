import SoundLaw.Decimal.Basic

/-!
# Reading numbers

A number is written as an optional sign followed by digits with an optional point and an
optional exponent, where a digit has to stand before or after the point. The words for infinity
and for an undefined number are accepted in any case. Nothing else is a number: no blanks, no
group marks and no other base.
-/

namespace SoundLaw.Decimal

/-- The digits at the start of a list of characters and what follows them. -/
def takeDigits (cs : List Char) : List Char × List Char :=
  (cs.takeWhile Char.isDigit, cs.dropWhile Char.isDigit)

/-- The whole number that a list of digits writes. -/
def ofDigits (digits : List Char) : Nat :=
  digits.foldl (fun n c => 10 * n + (c.toNat - '0'.toNat)) 0

/-- A sign at the start, true for a minus, and what follows it. -/
def takeSign : List Char → Bool × List Char
  | '-' :: rest => (true, rest)
  | '+' :: rest => (false, rest)
  | rest => (false, rest)

/-- The exponent at the end of a number: none at all, or a mark, an optional sign and digits. -/
def readExponent : List Char → Option Int
  | [] => some 0
  | mark :: rest =>
    if mark = 'e' ∨ mark = 'E' then
      let (negative, rest) := takeSign rest
      let (digits, rest) := takeDigits rest
      if digits.isEmpty || !rest.isEmpty then none
      else some (if negative then -(ofDigits digits : Int) else ofDigits digits)
    else none

/-- The digits after a point, if there is one, and what follows them. -/
def takeFraction : List Char → List Char × List Char
  | '.' :: rest => takeDigits rest
  | rest => ([], rest)

/-- The decimal that an unsigned number writes. -/
def readUnsigned (cs : List Char) : Option Decimal :=
  let (whole, rest) := takeDigits cs
  let (fraction, rest) := takeFraction rest
  if whole.isEmpty && fraction.isEmpty then none
  else
    (readExponent rest).map fun exponent =>
      ⟨ofDigits (whole ++ fraction), exponent - fraction.length⟩

/-- The binary number nearest to a decimal. Numbers beyond the largest are infinite, and those
far below the smallest are zero. -/
def nearest (d : Decimal) : Float :=
  let magnitude := d.exponent + width d.digits
  if d.digits = 0 ∨ magnitude < -400 then 0.0
  else if magnitude > 400 then 1.0 / 0.0
  else
    match d.exponent with
    | .ofNat e => Float.ofScientific d.digits false e
    | .negSucc e => Float.ofScientific d.digits true (e + 1)

/-- The number that a text writes. -/
def read (text : String) : Option Float :=
  let (negative, cs) := takeSign text.toList
  let signed (x : Float) : Float := if negative then -x else x
  let lowered := String.ofList (cs.map Char.toLower)
  if lowered = "inf" ∨ lowered = "infinity" then some (signed (1.0 / 0.0))
  else if lowered = "nan" then some (0.0 / 0.0)
  else (readUnsigned cs).map fun d => signed d.nearest

end SoundLaw.Decimal
