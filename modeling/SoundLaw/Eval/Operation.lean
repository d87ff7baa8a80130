import SoundLaw.Eval.Hook
import SoundLaw.Value.Arithmetic

/-!
# Operators on values

What the operators do with the values of their operands. Some operators have a meaning only in a
certain surrounding, which the parser has already taken care of; meeting one of them here is a
fault.
-/

namespace SoundLaw.Evaluator

open Eval

/-- The whole numbers between two numbers. -/
def rangeOf (first last : Value) : Eval Value := do
  match first, last with
  | .number x, .number y =>
    let elements ← ofExcept (Value.range x y)
    unless elements.isEmpty do checkpoint
    return .vector elements
  | _, _ => fault (Value.unfitPair "make a range from" first last)

/-- Changes a phone, a matrix or a word; a list of rules is looked at one rule at a time. -/
def transformBy (target change : Value) : Eval Value := do
  match target, change with
  | .word _, .vector (_ :: _) => checkpoint
  | _, _ => pure ()
  ofExcept (target.transform (← table) change)

/-- Why an operator between two operands has no meaning of its own. -/
def misplacedBinary : Operator → Fault
  | .inside => .failed (backquoted "in" ++ " must be followed by " ++ backquoted "do")
  | .arrow => onlyInRule .arrow
  | .focus => onlyInRule .focus
  | .ruleContext => onlyInRule .ruleContext
  | other => .failed (backquoted other.spelling ++ " cannot be used here")
where
  /-- An operator that belongs into a rule. -/
  onlyInRule (operator : Operator) : Fault :=
    .failed (backquoted operator.spelling ++ " is only valid inside a rule")

/-- Applies an operator to two values. -/
def binaryValue (e : Evaluator) (operator : Operator) (a b : Value) : Eval Value := do
  match Value.arithmetic? operator, Value.comparison? operator with
  | some arithmetic, _ => ofExcept (arithmetic a b)
  | none, some accepts => ofExcept (Value.compare accepts a b)
  | none, none =>
    match operator with
    | .equal => return .bool (← e.equals a b)
    | .notEqual => return .bool !(← e.equals a b)
    | .range => rangeOf a b
    | .transform => transformBy a b
    | .contrast => ofExcept (a.contrast b)
    | .among => ofExcept (a.among b)
    | other => fault (misplacedBinary other)

/-- Why an operator before its operand has no meaning of its own. -/
def misplacedUnary : Operator → Fault
  | .reference => onlyInParameters .reference
  | .fixed => onlyInParameters .fixed
  | .struct => onlyWithBody .struct
  | .static => onlyWithBody .static
  | other => .failed (backquoted other.spelling ++ " cannot be used here")
where
  /-- An operator that belongs before a parameter. -/
  onlyInParameters (operator : Operator) : Fault :=
    .failed (backquoted operator.spelling ++ " is only valid in a parameter list")
  /-- An operator that starts the definition of a structure. -/
  onlyWithBody (operator : Operator) : Fault :=
    .failed (backquoted operator.spelling ++ " must be followed by a name and " ++
      backquoted "class")

/-- Applies an operator to one value. -/
def unaryValue (e : Evaluator) (operator : Operator) (a : Value) : Eval Value := do
  match operator with
  | .not => return .bool !(← ofExcept (a.asBool "negate"))
  | .negate => ofExcept (do Value.finite "-" (-(← a.asNumber "negate")))
  | .affirm => return .number (← ofExcept (a.asNumber "take the sign of"))
  | .length => e.lengthOf a
  | .stringify => return .text (← e.textOf a)
  | .numerify => return .number (← ofExcept a.numberOf)
  | .vectorize => return .vector (← ofExcept (a.elements "convert to a vector"))
  | .wordify => return .word (← readWord a)
  | .matrixify => return .matrix (← ofExcept (a.matrixFrom (← table)))
  | .common =>
    return .matrix (commonFeatures (← ofExcept (a.phonesOf "find the common features of")))
  | .typeOf => return .text a.kind.name
  | other => fault (misplacedUnary other)

end SoundLaw.Evaluator
