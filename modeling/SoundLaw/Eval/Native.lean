import SoundLaw.Eval.Host
import SoundLaw.Text.Capital
import SoundLaw.Text.Split

/-!
# Commands and methods

What the functions do that are not written in a script. Missing arguments are null and surplus
ones are refused, as for functions of scripts.

Work that is started apart from the script is done at once, inside the call that starts it, and its
outcome waits to be fetched. Of all the orders in which the work and the rest of the script could
take their steps, this is the one that is followed: what holds of evaluations that start such work
is shown for this order only.
-/

namespace SoundLaw

open Eval

/-- A call with more arguments than are taken. -/
def surplus (expected : Nat) (arguments : List Value) : Fault :=
  .raised (.arityMismatch expected arguments.length)

/-- The only argument of a call. -/
def oneArgument : List Value → Except Fault Value
  | [] => .ok .null
  | [a] => .ok a
  | arguments => .error (surplus 1 arguments)

/-- The two arguments of a call. -/
def twoArguments : List Value → Except Fault (Value × Value)
  | [] => .ok (.null, .null)
  | [a] => .ok (a, .null)
  | [a, b] => .ok (a, b)
  | arguments => .error (surplus 2 arguments)

/-- A function on numbers whose outcome has to be finite. -/
def numericCommand (name : String) (f : Float → Float) (arguments : List Value) :
    Except Fault Value := do
  let argument ← oneArgument arguments
  let x ← argument.asNumber name
  Value.finite name (f x)

/-- Fetches the outcome of a task, which can be done once. -/
def joinTask (arguments : List Value) : Eval Value := do
  match ← ofExcept (oneArgument arguments) with
  | .task id =>
    match ← inspect (·.tasks[id]?) with
    | some (.finished outcome) =>
      modifyHeap fun heap => ((), { heap with tasks := heap.tasks.modify id fun _ => .joined })
      ofExcept outcome
    | _ => fault (.failed "thread has already been joined")
  | other => fault (other.unfit "join")

/-- Carries out a command. Spawned work runs to its end before the call returns. -/
def Command.run (e : Evaluator) (command : Command) (arguments : List Value) : Eval Value :=
  match command with
  | .print => do
    let texts ← holding (.values arguments) (e.textsOf arguments)
    say (" ".intercalate texts)
    return .null
  | .spawn =>
    match arguments with
    | .function callable :: rest => do
      let outcome ← outcome (callFirst e callable rest)
      return .task (← modifyHeap (·.newTask (.finished outcome)))
    | first :: _ => fault (first.unfit "spawn")
    | [] => fault (Value.null.unfit "spawn")
  | .join => joinTask arguments
  | .dict =>
    match arguments with
    | [] => return .dictionary []
    | _ => fault (surplus 0 arguments)
  | .sqrt => ofExcept (numericCommand "sqrt" Float.sqrt arguments)
  | .floor => ofExcept (numericCommand "floor" Float.floor arguments)
  | .abs => ofExcept (numericCommand "abs" Float.abs arguments)

/-- Whether one of some values is equal to another one, as each of them sees it. -/
def anyEquals (e : Evaluator) (item : Value) : List Value → Eval Bool
  | [] => return false
  | element :: rest => do
    if ← e.equals element item then return true else anyEquals e item rest

/-- Carries out a method; its first argument is the value it is called on. -/
def Method.run (e : Evaluator) (method : Method) (arguments : List Value) : Eval Value :=
  let unfit {α : Type} (receiver : Value) : Eval α :=
    fault (receiver.unfit ("call " ++ method.name ++ " on"))
  holding (.values arguments) do
  match method with
  | .length => e.lengthOf (← ofExcept (oneArgument arguments))
  | .contains =>
    match ← ofExcept (twoArguments arguments) with
    | (.vector elements, item) => return .bool (← anyEquals e item elements)
    | (.text t, .text part) => return .bool (Text.contains t part)
    | (.word w, .phone p) => return .bool (w.phones.contains p)
    | (.matrix m, .feature f) => return .bool (m.get f.name == f.quality)
    | (receiver, _) => unfit receiver
  | .reverse =>
    match ← ofExcept (oneArgument arguments) with
    | .vector elements => return .vector elements.reverse
    | .text t => return .text (String.ofList t.toList.reverse)
    | .word w => return .word w.reverse
    | receiver => unfit receiver
  | .join =>
    let (receiver, separator) ← ofExcept (twoArguments arguments)
    let separator ←
      match separator with
      | .null => pure ""
      | .text t => pure t
      | other => fault (other.unfit "join with")
    match receiver with
    | .vector elements => return .text (separator.intercalate (← e.textsOf elements))
    | _ => unfit receiver
  | .split =>
    match ← ofExcept (twoArguments arguments) with
    | (.text t, .null) => return .vector ((Text.words t).map .text)
    | (.text t, .text separator) => return .vector ((Text.splitOn separator t).map .text)
    | (.text _, other) => fault (other.unfit "split with")
    | (receiver, _) => unfit receiver
  | .upper =>
    match ← ofExcept (oneArgument arguments) with
    | .text t => return .text (Text.toCapitals t)
    | receiver => unfit receiver
  | .lower =>
    match ← ofExcept (oneArgument arguments) with
    | .text t => return .text (Text.toSmalls t)
    | receiver => unfit receiver
  | .symbol =>
    match ← ofExcept (oneArgument arguments) with
    | .phone p => return .text p.symbol
    | receiver => unfit receiver
  | .matrix =>
    match ← ofExcept (oneArgument arguments) with
    | .phone p => return .matrix p.matrix
    | receiver => unfit receiver
  | .phones =>
    match ← ofExcept (oneArgument arguments) with
    | .word w => return .vector (w.phones.map .phone)
    | receiver => unfit receiver
  | .apply =>
    match ← ofExcept (twoArguments arguments) with
    | (.word w, .rule r) | (.rule r, .word w) => return .word (r.transform (← table) w)
    | (receiver, _) => unfit receiver
  | .keys =>
    match ← ofExcept (oneArgument arguments) with
    | .dictionary entries => return .vector (entries.map fun entry => .text entry.1)
    | receiver => unfit receiver
  | .has =>
    match ← ofExcept (twoArguments arguments) with
    | (.dictionary entries, key) =>
      return .bool (Value.entry? (← e.keyOf key) entries).isSome
    | (receiver, _) => unfit receiver

/-- Carries out a function that is not written in a script. -/
def Native.run (host : Host) (e : Evaluator) (native : Native) (arguments : List Value) :
    Eval Value :=
  match native with
  | .command c => c.run e arguments
  | .host name index => host.run e name index arguments
  | .method _ m => m.run e arguments

end SoundLaw
