import SoundLaw.Eval.Instance
import SoundLaw.Eval.Operation

/-!
# Expressions

Every expression is evaluated by looking at its outermost form and evaluating its parts one
level deeper. A fault gets the place of the innermost expression that it comes out of.

The depth of an evaluation is bounded. Each level gives its parts one level less, and a loop
goes round at most as often as there are levels left. With enough levels the bound is never felt,
and an evaluation that has come to an end within some bound ends alike within a larger one, as long
as the commands of the host do not look at the bound.
-/

namespace SoundLaw

open Eval

namespace Evaluator

/-- The value of a name: of its variable, of the instance around it, or the name of a kind. -/
def nameValue (scope : Scope) (name : String) : Eval Value := do
  match ← inspect (·.get? scope name) with
  | some value => return value
  | none =>
    match ← ownerOf with
    | some id => return .struct id
    | none =>
      match Kind.ofName? name with
      | some kind => return .text kind.name
      | none => unresolved name
where
  /-- The living instance around the scope, when it is asked for. -/
  ownerOf : Eval (Option StructId) := do
    if name = "this" then
      match ← inspect (·.owner? scope) with
      | some id => return if ← isAlive (.struct id) then some id else none
      | none => return none
    else return none

/-- Evaluates an operand without parts. -/
def leaf (scope : Scope) : Leaf → Eval Flow
  | .null => return .value .null
  | .bool b => return .value (.bool b)
  | .number x => return .value (.number x)
  | .text t => return .value (.text t)
  | .phone p => return .value (.phone p)
  | .word w => return .value (.word w)
  | .feature f => return .value (.feature f)
  | .stop => return .broken
  | .name name => return .value (← nameValue scope name)
  | .declare name => do
    discard (Eval.declare scope name .null)
    return .value .null

/-- Evaluates expressions from left to right and goes on with all their values. -/
def collect (e : Evaluator) (scope : Scope) (finish : List Value → Eval Flow)
    (collected : List Value) : List Node → Eval Flow
  | [] => finish collected.reverse
  | node :: rest =>
    andThen (holding (.values collected) (e.evaluate node scope)) fun value =>
      collect e scope finish (value :: collected) rest

/-- Evaluates a list of expressions. -/
def sequence (e : Evaluator) (form : Form) (elements : List Node) (scope : Scope) :
    Eval Flow := do
  match form with
  | .group | .vector => e.collect scope (fun values => return .value (.vector values)) [] elements
  | .block =>
    checkpoint
    let inner ← newChild scope
    holding (.scope inner)
      (e.collect inner (fun values => return .value (.vector values)) [] elements)
  | .matrix =>
    e.collect scope
      (fun values => return .value (.matrix (← ofExcept (Value.matrixOf (← table) values))))
      [] elements

/-- Evaluates an operator between two operands. -/
def binary (e : Evaluator) (operator : Operator) (left right : Node) (scope : Scope) : Eval Flow :=
  holdThen (e.evaluate left scope) fun a => do
    match operator with
    | .and =>
      if ← ofExcept (a.asBool "apply && to") then
        andThen (e.evaluate right scope) fun b =>
          return .value (.bool (← ofExcept (b.asBool "apply && to")))
      else return .value (.bool false)
    | .or =>
      if ← ofExcept (a.asBool "apply || to") then return .value (.bool true)
      else
        andThen (e.evaluate right scope) fun b =>
          return .value (.bool (← ofExcept (b.asBool "apply || to")))
    | _ =>
      holdThen (e.evaluate right scope) fun b =>
        return .value (← e.binaryValue operator a b)

/-- Evaluates a condition and one of its branches. -/
def choose (e : Evaluator) (condition consequence : Node) (alternative : Option Node)
    (scope : Scope) : Eval Flow :=
  andThen (e.evaluate condition scope) fun value => do
    if ← ofExcept (value.asBool "branch on") then e.evaluate consequence scope
    else
      match alternative with
      | some alternative => e.evaluate alternative scope
      | none => return .value .null

/-- Goes round a loop as long as its condition holds. -/
def repeatWhile (e : Evaluator) (condition body : Node) (scope : Scope) : Nat → Eval Flow
  | 0 => exhausted
  | rounds + 1 => do
    checkpoint
    andThen (e.evaluate condition scope) fun value => do
      if ← ofExcept (value.asBool "loop on") then
        match ← e.evaluate body scope with
        | .value _ => repeatWhile e condition body scope rounds
        | .broken => return .value .null
        | .returned value => return .returned value
      else return .value .null

/-- Goes round a loop once for each of some values. -/
def forEach (e : Evaluator) (name : String) (body : Node) (scope : Scope) : List Value → Eval Flow
  | [] => return .value .null
  | item :: rest => do
    checkpoint
    let inner ← newChild scope
    discard (Eval.declare inner name item)
    match ← holding (.values rest) (holding (.scope inner) (e.evaluate body inner)) with
    | .value _ => forEach e name body scope rest
    | .broken => return .value .null
    | .returned value => return .returned value

/-- Evaluates a statement whose faults are handled. The handler sees their text. -/
def handled (e : Evaluator) (body : Node) (handler : Option Node) (scope : Scope) : Eval Flow :=
  rescue (e.evaluate body scope) fun fault => do
    match handler with
    | some handler =>
      let inner ← newChild scope
      discard (Eval.declare inner "_e" (.text fault.caughtText))
      holding (.scope inner) (e.evaluate handler inner)
    | none => return .value .null

/-- Evaluates the parts of a rule and puts them together. -/
def ruleValue (e : Evaluator) (kind : RuleKind) (search replacement left right : Node)
    (scope : Scope) : Eval Flow :=
  holdThen (e.evaluate search scope) fun search =>
  holdThen (e.evaluate replacement scope) fun replacement =>
  holdThen (e.evaluate left scope) fun left =>
  andThen (e.evaluate right scope) fun right =>
    return .value (.rule (← ofExcept (Value.ruleOf kind search replacement left right)))

/-- A new function that remembers the scope it is made in. -/
def closure (parameters : List Parameter) (body : Node) (scope : Scope) : Eval Flow := do
  let identity ← modifyHeap (·.newIdentity)
  return .value (.function (.script ⟨identity, ⟨parameters, body⟩, .held scope⟩))

/-- Evaluates an expression, its parts one level deeper. -/
def expression (e : Evaluator) (node : Node) (scope : Scope) : Eval Flow :=
  match node with
  | .leaf _ operand => leaf scope operand
  | .sequence _ form elements => e.sequence form elements scope
  | .unary _ operator operand =>
    holdThen (e.evaluate operand scope) fun value =>
      return .value (← e.unaryValue operator value)
  | .binary _ operator left right => e.binary operator left right scope
  | .assign _ operator target value => e.assign operator target value scope
  | .member _ object name => e.member object name scope
  | .index _ target subscript =>
    holdThen (e.evaluate target scope) fun value =>
    andThen (e.evaluate subscript scope) fun index =>
      return .value (← e.elementOf value index)
  | .call _ callee arguments => e.callNode callee arguments scope
  | .lambda _ parameters body => closure parameters body scope
  | .branch _ condition consequence => e.choose condition consequence none scope
  | .choice _ condition consequence alternative =>
    e.choose condition consequence (some alternative) scope
  | .repetition _ condition body => e.repeatWhile condition body scope e.rounds
  | .iteration _ name iterable body =>
    andThen (e.evaluate iterable scope) fun value => do
      e.forEach name body scope (← ofExcept (value.elements "iterate over"))
  | .attempt _ body => e.handled body none scope
  | .rescue _ body handler => e.handled body (some handler) scope
  | .define _ name isStatic body => e.define name isStatic body scope
  | .create _ template arguments => e.create template arguments scope
  | .rule _ kind search replacement left right =>
    e.ruleValue kind search replacement left right scope
  | .result _ value =>
    andThen (e.evaluate value scope) fun value => return .returned value
  | .raise _ message =>
    holdThen (e.evaluate message scope) fun message => do
      fault (.raised (.thrown (← e.textOf message)))

end Evaluator

mutual

/-- Evaluates an expression in a scope, at most so many levels deep. -/
def evaluate (host : Host) : Nat → Node → Scope → Eval Flow
  | 0, _, _ => exhausted
  | depth + 1, node, scope =>
    stamp node.position
      (Evaluator.expression
        ⟨depth, evaluate host depth, invoke host depth, textWithin host depth⟩ node scope)

/-- Calls a function, at most so many levels deep. -/
def invoke (host : Host) : Nat → Callable → List Argument → Eval Value
  | 0, _, _ => exhausted
  | depth + 1, callable, arguments =>
    Evaluator.invokeCallable host
      ⟨depth, evaluate host depth, invoke host depth, textWithin host depth⟩ callable arguments

/-- The text of a value, asking instances at most so many levels deep. -/
def textWithin (host : Host) : Nat → Value → Eval String
  | 0, _ => exhausted
  | depth + 1, value =>
    Evaluator.textOf ⟨depth, evaluate host depth, invoke host depth, textWithin host depth⟩ value

end

/-- The means to evaluate at most so many levels deep, with the commands of a host. -/
def Evaluator.within (host : Host) (depth : Nat) : Evaluator :=
  ⟨depth, SoundLaw.evaluate host depth, SoundLaw.invoke host depth, textWithin host depth⟩

/-- Evaluates statements one after another and gives back the last value. Each value is held
until the next statement has finished. -/
def evaluateAll (host : Host) (depth : Nat) (scope : Scope) (last : Value) :
    List Node → Eval Value
  | [] => return last
  | statement :: rest => do
    match ← holding (.value last) (evaluate host depth statement scope) with
    | .value value => evaluateAll host depth scope value rest
    | .returned value => return value
    | .broken => return .null

end SoundLaw
