import SoundLaw.Eval
import SoundLaw.Value.Conversion

/-!
# Hooks

Instances take part in printing, comparing, measuring and indexing through methods of their own,
and everything else about a value is plain. The functions here go through a value and ask the
instances they meet; asking means calling a function, so they are given the means to do so.

The text of a value is found by recursion on the value. Only the answer of an instance that is
not a text itself starts a new round, one level deeper.
-/

namespace SoundLaw

/-- The means to evaluate what lies one level deeper. -/
structure Evaluator where
  /-- How often a loop may go round. -/
  rounds : Nat
  /-- Evaluates an expression in a scope. -/
  evaluate : Node → Scope → Eval Flow
  /-- Calls a function. -/
  invoke : Callable → List Argument → Eval Value
  /-- The text of a value. -/
  text : Value → Eval String

namespace Evaluator

open Eval

/-- Calls a function with mere values. -/
def call (e : Evaluator) (callable : Callable) (values : List Value) : Eval Value :=
  e.invoke callable (values.map .ofValue)

/-- A hook of an instance. -/
def hook? (select : Hooks → Option Callable) (id : StructId) : Eval (Option Callable) :=
  inspect fun heap => (heap.hooks? id).bind select

mutual

/-- The text of a value, as its instances give it. -/
def textOf (e : Evaluator) : Value → Eval String
  | .vector elements => do
    return Value.bracketed (← textsOf e elements)
  | .dictionary entries => do
    return Value.braced (← entryTextsOf e entries)
  | .struct id => do
    match ← hook? (·.text) id with
    | some callable =>
      match ← e.call callable [] with
      | .text t => return t
      | other => holding (.value other) (e.text other)
    | none => inspect (·.describe id)
  | other => inspect fun heap => other.render heap.describe

/-- The texts of several values. -/
def textsOf (e : Evaluator) : List Value → Eval (List String)
  | [] => return []
  | value :: rest => do
    let first ← textOf e value
    return first :: (← textsOf e rest)

/-- The texts of the entries of a dictionary. -/
def entryTextsOf (e : Evaluator) : List (String × Value) → Eval (List String)
  | [] => return []
  | (key, value) :: rest => do
    let first ← textOf e value
    return (key ++ ": " ++ first) :: (← entryTextsOf e rest)

end

mutual

/-- Whether two values are equal, as the instance on the left sees it. -/
def equals (e : Evaluator) : Value → Value → Eval Bool
  | .struct id, other => do
    match ← hook? (·.equals) id with
    | some callable =>
      let answer ← e.call callable [other]
      ofExcept (answer.asBool "use as an equality result")
    | none => return (Value.struct id).same other
  | .vector as, .vector bs =>
    if as.length = bs.length then equalsAll e as bs else return false
  | a, b => return a.same b

/-- Whether the values of two lists are equal one by one. -/
def equalsAll (e : Evaluator) : List Value → List Value → Eval Bool
  | a :: as, b :: bs => do
    if ← equals e a b then equalsAll e as bs else return false
  | _, _ => return true

end

/-- The key that a value has in a dictionary. -/
def keyOf (e : Evaluator) (value : Value) : Eval String := do
  match value with
  | .struct id =>
    match ← hook? (·.key) id with
    | some callable =>
      let answer ← e.call callable []
      holding (.value answer) (textOf e answer)
    | none => textOf e value
  | _ => textOf e value

/-- The number of parts of a value, or what an instance answers. -/
def lengthOf (e : Evaluator) (value : Value) : Eval Value := do
  match value with
  | .struct id =>
    match ← hook? (·.length) id with
    | some callable => e.call callable []
    | none => fault (.mismatch "take the length of" "a structure without getLen")
  | _ => return .number (Float.ofNat (← ofExcept value.size))

/-- The part of a value at an index, or what an instance answers. -/
def elementOf (e : Evaluator) (value index : Value) : Eval Value := do
  match value with
  | .struct id =>
    match ← hook? (·.element) id with
    | some callable => e.call callable [index]
    | none => fault (.mismatch "index" "a structure without getIndex")
  | .dictionary entries =>
    let key ← holding (.value index) (keyOf e index)
    return (Value.entry? key entries).getD .null
  | _ => ofExcept (value.part (← table) index)

end Evaluator

end SoundLaw
