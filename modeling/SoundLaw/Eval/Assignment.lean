import SoundLaw.Eval.Hook
import SoundLaw.Value.Arithmetic

/-!
# Assignments

An assignment writes to a place: a variable, and a path of indices below it. The value is
computed first and the place second. A name without a variable is declared when the assignment
writes to it directly, and so is a missing member of an instance.

The path is walked inside the value of the variable. A missing key of a dictionary is entered as
null on the way, and it stays entered when a later step of the walk fails.
-/

namespace SoundLaw

open Eval

/-- One index below a variable. -/
structure Step where
  /-- The index. -/
  index : Value
  /-- The index as the key of a dictionary. -/
  key : String

/-- Where an assignment writes to. -/
structure Place where
  /-- The variable. -/
  cell : CellId
  /-- The indices below it, the outermost first. -/
  path : List Step

/-- Replaces the value at the end of a path. The second component is what the container is
afterwards, also when the walk fails. -/
def Value.updateAt (update : Value → Except Fault Value) :
    List Step → Value → Except Fault Value × Value
  | [], current =>
    match update current with
    | .ok value => (.ok value, value)
    | .error fault => (.error fault, current)
  | step :: rest, .vector elements =>
    match step.index.asIndex elements.length with
    | .error fault => (.error fault, .vector elements)
    | .ok i =>
      let (outcome, element) := Value.updateAt update rest ((elements[i]?).getD .null)
      (outcome, .vector (elements.set i element))
  | step :: rest, .dictionary entries =>
    let (outcome, value) :=
      Value.updateAt update rest ((Value.entry? step.key entries).getD .null)
    (outcome, .dictionary (Value.insertEntry step.key value entries))
  | _ :: _, other => (.error (other.unfit "assign an element of"), other)

/-- The new value of a place, from the value assigned and the one it has. -/
def Operator.updated (operator : Operator) (assigned current : Value) : Except Fault Value :=
  match operator.compound?.bind Value.arithmetic? with
  | some arithmetic => arithmetic current assigned
  | none => .ok assigned

namespace Evaluator

/-- The kind of values that an expression names: a bare name of a kind without a variable. -/
def typeName? (node : Node) (scope : Scope) : Eval (Option Kind) :=
  match node with
  | .leaf _ (.name name) => inspect fun heap =>
    match heap.lookup? scope name with
    | some _ => none
    | none => Kind.ofName? name
  | _ => pure none

/-- The cell of a member of an instance, which is declared if it is missing. -/
def memberCell (name : String) : Value → Eval CellId
  | .struct id => do
    match ← inspect (·.structs[id]?) with
    | some (.object _ scope _ _) =>
      match ← inspect (·.localCell? scope.frame name) with
      | some cell => return cell
      | none => declare scope name .null
    | _ => fault (.mismatch "assign a member of" "a structure that has not been instantiated")
  | other => fault (other.unfit "assign a member of")

/-- The place that an expression stands for. -/
def placeOf (e : Evaluator) (scope : Scope) (creating : Bool) : Node → Eval Place
  | .leaf position (.name name) => do
    match ← inspect (·.lookup? scope name) with
    | some cell => return ⟨cell, []⟩
    | none =>
      if creating then return ⟨← declare scope name .null, []⟩
      else fault (.evaluation (.unresolvedVariable name) (some position))
  | .leaf _ (.declare name) => return ⟨← declare scope name .null, []⟩
  | .index _ container subscript => do
    let place ← placeOf e scope false container
    holding (.cell place.cell) <| holding (.values (place.path.map (·.index))) do
      let index := (← e.evaluate subscript scope).carried
      let key ← holding (.value index) (e.keyOf index)
      return ⟨place.cell, place.path ++ [⟨index, key⟩]⟩
  | .member _ object name => do
    let flow ← e.evaluate object scope
    return ⟨← memberCell name flow.carried, []⟩
  | _ => fault (.failed "cannot assign to this expression")

/-- Makes a function the method of a kind of values. -/
def registerMethod (kind : Kind) (name : String) (operator : Operator) (value : Value) :
    Eval Flow :=
  match value, operator with
  | .function callable, .assign => do
    setMethod kind name callable
    return .value value
  | _, _ => fault (value.unfit "register as a method")

/-- Writes a value to the place that an expression stands for. -/
def writeTo (e : Evaluator) (operator : Operator) (target : Node) (value : Value)
    (scope : Scope) : Eval Flow := do
  let place ← e.placeOf scope (operator == .assign) target
  let written ← updateCell place.cell fun current =>
    Value.updateAt (operator.updated value) place.path current
  return .value written

/-- Evaluates an assignment. -/
def assign (e : Evaluator) (operator : Operator) (target value : Node) (scope : Scope) :
    Eval Flow :=
  holdThen (e.evaluate value scope) fun value => do
    match target with
    | .member _ object name =>
      match ← typeName? object scope with
      | some kind => registerMethod kind name operator value
      | none => e.writeTo operator target value scope
    | _ => e.writeTo operator target value scope

end Evaluator

end SoundLaw
