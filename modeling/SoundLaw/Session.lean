import SoundLaw.Eval.Expression
import SoundLaw.Node.Parsing
import SoundLaw.Token.Classification

/-!
# Sessions

A session is a phone table together with everything that the units run so far have defined. A
unit is compiled as a whole before any of it is evaluated, and its statements are evaluated in
the global scope. A request to stop counts for one unit: it is dropped when the unit is over,
whatever its outcome.
-/

namespace SoundLaw

/-- Why there is no value. -/
inductive Halt where
  | fault (fault : Fault)
  /-- The evaluation is nested more deeply than allowed. -/
  | exhausted
deriving DecidableEq, Repr

/-- The text shown for the lack of a value. -/
def Halt.message : Halt → String
  | fault f => f.message
  | exhausted => "Evaluation nested too deeply"

/-- The methods that values have from the start. -/
def State.standardMethods : List ((Kind × String) × Callable) :=
  Method.all.flatMap fun method =>
    method.kinds.map fun kind => ((kind, method.name), .native (.method kind method))

/-- A phone table and all that has been defined with it. -/
structure Session where
  /-- The phone table. -/
  table : Table
  /-- Whether phonological notation is accepted. -/
  phonology : Bool
  /-- The commands that the host has registered. -/
  host : Host
  /-- The scope in which units are evaluated. -/
  global : Scope
  /-- What the units have made. -/
  state : State

namespace Session

/-- The heap in which a command is bound to its name. -/
def bindCommand (global : Scope) (heap : Heap) (command : Native) : Heap :=
  (heap.declare global.frame command.name (.function (.native command))).2

/-- A session in which nothing has been run. All phones are bound to a name that cannot be
assigned to. -/
def start (table : Table) (phonology : Bool) : Session :=
  let (global, heap) := Heap.empty.newGlobal
  let heap := (Command.all.map .command).foldl (bindCommand global) heap
  let heap :=
    if phonology then
      (heap.declareCell global.frame "all" ⟨.vector (table.phones.map .phone), false⟩).2
    else heap
  ⟨table, phonology, [], global, ⟨heap, State.standardMethods, false, #[]⟩⟩

/-- How many levels deep an evaluation may be nested. -/
def depth : Nat := 1000000000

/-- Carries out an evaluation. -/
def perform {α : Type} (session : Session) (m : Eval α) : Except Halt α × Session :=
  match m ⟨session.table, [.scope session.global]⟩ session.state with
  | .done value state => (.ok value, { session with state := state })
  | .failed fault state => (.error (.fault fault), { session with state := state })
  | .exhausted state => (.error .exhausted, { session with state := state })

/-- The statements of a unit. -/
def compile (session : Session) (source : String) : Except Fault (List Node) := do
  let tokens ← Token.tokenize (.ofTable session.table session.phonology) source
  Node.parse session.table tokens

/-- The session after a unit is over. -/
def settle (session : Session) : Session :=
  { session with state := { session.state with isCancelled := false } }

/-- Runs a unit and gives back the value of its last statement. -/
def run (session : Session) (source : String) : Except Halt Value × Session :=
  match session.compile source with
  | .error fault => (.error (.fault fault), session.settle)
  | .ok statements =>
    let (outcome, session) :=
      session.perform (evaluateAll session.host depth session.global .null statements)
    (outcome, session.settle)

/-- The text of a value, as its instances give it. -/
def render (session : Session) (value : Value) : Except Halt String × Session :=
  session.perform (Eval.holding (.value value) (textWithin session.host depth value))

/-- Runs a unit and gives back the text of its outcome; null has no text. -/
def execute (session : Session) (source : String) : String × Session :=
  match session.run source with
  | (.ok .null, session) => ("", session)
  | (.ok value, session) =>
    match session.render value with
    | (.ok text, session) => (text, session)
    | (.error halt, session) => (halt.message, session)
  | (.error halt, session) => (halt.message, session)

/-- The value of a global name. -/
def get? (session : Session) (name : String) : Option Value :=
  session.state.heap.get? session.global name

/-- Changes the heap of a session. -/
def mapHeap (session : Session) (change : Heap → Heap) : Session :=
  { session with state := { session.state with heap := change session.state.heap } }

/-- Registers a command of the host and binds it to its name. -/
def register (session : Session) (command : HostCommand) : Session :=
  { session with host := session.host ++ [command] }.mapHeap fun heap =>
    bindCommand session.global heap (.host command.name session.host.length)

/-- Asks the next unit to stop at its first checkpoint. -/
def cancel (session : Session) : Session :=
  { session with state := { session.state with isCancelled := true } }

/-- The lines printed since they were last taken. -/
def takePrinted (session : Session) : List String × Session :=
  (session.state.printed.toList,
    { session with state := { session.state with printed := #[] } })

end Session

end SoundLaw
