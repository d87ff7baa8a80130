import SoundLaw.Value

/-!
# Arithmetic and order

Operations on two values that look at nothing but the values. Arithmetic on numbers has to stay
within the finite numbers. Addition also joins texts, vectors, words and matrices. Numbers and
texts are ordered, and a comparison with something that is no number is false.
-/

namespace SoundLaw

namespace Operator

/-- The arithmetic of an assignment that updates its target. -/
def compound? : Operator → Option Operator
  | addAssign => some add
  | subtractAssign => some subtract
  | multiplyAssign => some multiply
  | divideAssign => some divide
  | remainderAssign => some remainder
  | _ => none

end Operator

namespace Value

/-- The outcome of arithmetic, which has to be a finite number. -/
def finite (operation : String) (x : Float) : Except Fault Value :=
  if x.isFinite then .ok (number x) else .error (.raised (.nonFinite operation))

/-- One value after or merged with another. -/
def add : Value → Value → Except Fault Value
  | number x, number y => finite "+" (x + y)
  | text x, text y => .ok (text (x ++ y))
  | vector x, vector y => .ok (vector (x ++ y))
  | matrix x, matrix y => .ok (matrix (x.union y))
  | word x, word y => .ok (word (x.append y))
  | a, b => .error (unfitPair "add" a b)

/-- An operation on two numbers. -/
def numeric (operation : String) (f : Float → Float → Float) : Value → Value → Except Fault Value
  | number x, number y => finite operation (f x y)
  | a, b => .error (unfitPair operation a b)

/-- The arithmetic of an operator, if it has one. -/
def arithmetic? : Operator → Option (Value → Value → Except Fault Value)
  | .add => some add
  | .subtract => some (numeric "-" (· - ·))
  | .multiply => some (numeric "*" (· * ·))
  | .divide => some (numeric "/" (· / ·))
  | .remainder => some (numeric "%" Number.remainder)
  | .power => some (numeric "**" Float.pow)
  | _ => none

/-- How two values are ordered; two numbers have no order if one of them is no number. -/
def order? : Value → Value → Except Fault (Option Ordering)
  | number x, number y =>
    .ok (if x < y then some .lt else if x > y then some .gt
      else if x == y then some .eq else none)
  | text x, text y => .ok (some (if x < y then .lt else if x = y then .eq else .gt))
  | a, b => .error (unfitPair "compare" a b)

/-- The orders that an operator accepts, if it compares. -/
def comparison? : Operator → Option (Ordering → Bool)
  | .less => some (·.isLT)
  | .greater => some (·.isGT)
  | .lessEqual => some (·.isLE)
  | .greaterEqual => some (·.isGE)
  | _ => none

/-- Whether the order of two values is one of those accepted. -/
def compare (accepts : Ordering → Bool) (a b : Value) : Except Fault Value :=
  (order? a b).map fun order => bool (order.any accepts)

/-- The most elements of a range. -/
def longestRange : Nat := 16777216

/-- Whether a number is whole and so small that all whole numbers of its size are exact. -/
def isExact (x : Float) : Bool :=
  Number.isWhole x && x.abs < 9007199254740992.0

/-- The bound of a range as a whole number. -/
def rangeBound (x : Float) : Except Fault Int :=
  if isExact x then .ok (Number.toInt x)
  else .error (.failed ("range bound " ++ Number.text x ++ " is not an exact whole number"))

/-- The whole numbers from one bound up to another, the second one left out. -/
def range (first last : Float) : Except Fault (List Value) := do
  let start ← rangeBound first
  let stop ← rangeBound last
  let length := (stop - start).toNat
  if length > longestRange then
    throw (.failed ("range of " ++ toString length ++ " elements exceeds the limit of " ++
      toString longestRange))
  return (List.range length).map fun (n : Nat) => number (Float.ofInt (start + n))

end Value

end SoundLaw
