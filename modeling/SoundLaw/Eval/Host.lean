import SoundLaw.Eval.Hook
import SoundLaw.Value.Arithmetic

/-!
# Commands of a host

A host may give a session commands of its own. What such a command does is not fixed here: it may
ask the evaluator to evaluate, to call and to find texts, and change the state of the script as it
likes. The evaluator takes the commands as a parameter, and results about evaluations that depend on
them say what they rely on.

A command may also remember its earlier calls. Every call gets a number that no other call gets, so
that a command with a memory is one whose behaviour goes by the number of the call. What a command
keeps to itself does not count as held, though: it keeps no instance alive.
-/

namespace SoundLaw

open Eval

/-- A command of a host. -/
structure HostCommand where
  /-- The global name that the command is bound to. -/
  name : String
  /-- What a call does, given its number, the means to evaluate one level deeper and its
  arguments. -/
  run : Nat → Evaluator → List Value → Eval Value

/-- The commands that a host has registered, the earliest first. -/
abbrev Host := List HostCommand

/-- Carries out the command that a host registered at a position. -/
def Host.run (host : Host) (e : Evaluator) (name : String) (index : Nat) (arguments : List Value) :
    Eval Value :=
  match host[index]? with
  | some command => do
    let call ← modifyHeap (·.newIdentity)
    command.run call e arguments
  | none => fault (.failed (backquoted name ++ " is not registered"))

/-- Calls the first of some values with the others. -/
def callFirst (e : Evaluator) (callable : Callable) (arguments : List Value) : Eval Value :=
  holding (.value (.function callable)) (e.call callable arguments)

namespace HostCommand

/-- Doubles a number; surplus arguments are ignored. -/
def twice : HostCommand where
  name := "hostTwice"
  run _ _ arguments := do
    let x ← ofExcept ((arguments.headD .null).asNumber "double")
    return .number (x * 2.0)

/-- Calls its first argument with the others. -/
def call : HostCommand where
  name := "hostCall"
  run _ e arguments :=
    match arguments with
    | .function callable :: rest => callFirst e callable rest
    | first :: _ => fault (first.unfit "host call")
    | [] => fault (.failed "hostCall needs a function")

/-- Whether two values are equal, as the instance on the left sees it. -/
def equals : HostCommand where
  name := "hostEquals"
  run _ e arguments :=
    holding (.values arguments) do
      return .bool (← e.equals (arguments.headD .null) (arguments.tail.headD .null))

/-- The key that a value has in a dictionary. -/
def key : HostCommand where
  name := "hostKey"
  run _ e arguments :=
    holding (.values arguments) do
      return .text (← e.keyOf (arguments.headD .null))

/-- Asks the evaluation to stop. -/
def cancel : HostCommand where
  name := "hostCancel"
  run _ _ _ := do
    Eval.cancel
    return .null

/-- Commands that show what a host can ask for: a mere computation, a call, a comparison and a key,
as scripts see them, and a stop. -/
def samples : Host := [twice, call, equals, key, cancel]

end HostCommand

end SoundLaw
