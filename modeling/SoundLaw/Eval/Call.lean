import SoundLaw.Eval.Assignment
import SoundLaw.Eval.Native

/-!
# Calls

A function is called with arguments that are evaluated from left to right. A member of a value
is called as a method: for an instance it is one of its own variables, and the instance stays
alive until the call returns; for any other value it is the method of its kind, and the value is
passed as the first argument.

A call gets a frame of its own inside the scope that the function remembers. A method of an
instance finds that scope only as long as the instance is there.
-/

namespace SoundLaw

open Eval

namespace Evaluator

/-- A name without a variable. -/
def unresolved {α : Type} (name : String) : Eval α :=
  fault (.raised (.unresolvedVariable name))

/-- The method of a kind of values. -/
def methodOf (kind : Kind) (name : String) : Eval Value := do
  match ← method? kind name with
  | some callable => return .function callable
  | none => unresolved (kind.name ++ "." ++ name)

/-- The value of a member of an instance. -/
def memberOf (id : StructId) (name : String) : Eval Value := do
  match ← inspect (·.structs[id]?) with
  | some (.object structName scope _ _) =>
    match ← inspect fun heap => (heap.localCell? scope.frame name).map heap.read with
    | some value => return value
    | none => unresolved (structName ++ "." ++ name)
  | _ => fault (.mismatch "access a member of" "a structure that has not been instantiated")

/-- Evaluates the access to a member. -/
def member (e : Evaluator) (object : Node) (name : String) (scope : Scope) : Eval Flow := do
  match ← typeName? object scope with
  | some kind => return .value (← methodOf kind name)
  | none =>
    andThen (e.evaluate object scope) fun value => do
      match value with
      | .struct id => return .value (← memberOf id name)
      | other => return .value (← methodOf other.kind name)

/-- Evaluates an argument; a bare name brings its variable along. -/
def argument (e : Evaluator) (node : Node) (scope : Scope) : Eval Argument := do
  let cell ←
    match node with
    | .leaf _ (.name name) => inspect (·.lookup? scope name)
    | _ => pure none
  match cell with
  | some cell => return ⟨← inspect (·.read cell), some cell⟩
  | none => return .ofValue (← e.evaluate node scope).carried

/-- Evaluates arguments after those that are there already. -/
def arguments (e : Evaluator) (scope : Scope) (collected : List Argument) :
    List Node → Eval (List Argument)
  | [] => return collected
  | node :: rest => do
    let next ← holding (.arguments collected) (e.argument node scope)
    arguments e scope (collected ++ [next]) rest

/-- Calls a value with some arguments and further ones that are still to be evaluated. -/
def callValue (e : Evaluator) (function : Value) (leading : List Argument) (nodes : List Node)
    (scope : Scope) : Eval Flow :=
  holding (.value function) do
    let arguments ← e.arguments scope leading nodes
    match function with
    | .function callable => return .value (← e.invoke callable arguments)
    | other => fault (other.unfit "call")

/-- Evaluates a call. -/
def callNode (e : Evaluator) (callee : Node) (nodes : List Node) (scope : Scope) : Eval Flow := do
  match callee with
  | .member _ object name =>
    match ← typeName? object scope with
    | some kind => e.callValue (← methodOf kind name) [] nodes scope
    | none =>
      let receiver ← e.argument object scope
      match receiver.value with
      | .struct id =>
        let method ← memberOf id name
        holding (.value receiver.value) (e.callValue method [] nodes scope)
      | other => e.callValue (← methodOf other.kind name) [receiver] nodes scope
  | _ => andThen (e.evaluate callee scope) fun function => e.callValue function [] nodes scope

/-- The scope that a function remembers, if it is still there. -/
def remembered : Captured → Eval Scope
  | .held scope => return scope
  | .weak scope => do
    if ← isAlive (.frame scope.frame) then return scope
    else fault (.failed "method called after its instance was released")

/-- Binds parameters to arguments in the innermost frame of a scope. -/
def bindParameters (scope : Scope) : List Parameter → List Argument → Eval Unit
  | [], _ => return ()
  | parameter :: rest, arguments => do
    let argument := arguments.headD (.ofValue .null)
    match parameter.mode, argument.cell with
    | .reference, some cell =>
      modifyHeap fun heap => ((), heap.bind scope.frame parameter.name cell)
    | mode, _ =>
      modifyHeap fun heap =>
        ((), (heap.declareCell scope.frame parameter.name ⟨argument.value, mode != .fixed⟩).2)
    bindParameters scope rest arguments.tail

/-- What a call gives back: its result, or the value of a body that is no block. -/
def yielded (body : Node) : Flow → Value
  | .returned value => value
  | .value value => if body.isBlock then .null else value
  | .broken => .null

/-- Calls a function of a script. -/
def invokeClosure (e : Evaluator) (closure : Closure) (arguments : List Argument) :
    Eval Value := do
  let definition := closure.definition
  if arguments.length > definition.parameters.length then
    fault (.raised (.arityMismatch definition.parameters.length arguments.length))
  else
    let captured ← holding (.arguments arguments) (remembered closure.captured)
    let scope ← newChild captured
    bindParameters scope definition.parameters arguments
    let flow ← holding (.scope scope) (e.evaluate definition.body scope)
    return yielded definition.body flow

/-- Calls a function. -/
def invokeCallable (host : Host) (e : Evaluator) (callable : Callable)
    (arguments : List Argument) : Eval Value := do
  checkpoint
  match callable with
  | .native native => native.run host e (arguments.map (·.value))
  | .script closure => e.invokeClosure closure arguments

end Evaluator

end SoundLaw
