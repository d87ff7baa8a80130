import SoundLaw.Heap.Liveness
import SoundLaw.Value.Phonology

/-!
# Evaluations

An evaluation reads a phone table, changes a state and ends in one of three ways: with a value,
with a fault, or because it used up the depth it was given. In each case the state it reached is
kept, so nothing that was done before a fault is undone. An evaluation that does not come to an end
uses up every depth.

An evaluation also knows what the evaluations around it hold on to: the scopes they work in and
the values they have computed but not used yet. This is what keeps instances alive between two
uses of them, and it is looked at only when somebody asks whether an instance is still alive.
-/

namespace SoundLaw

/-- A call argument. One that is written as a bare name brings its variable along. -/
structure Argument where
  /-- What is passed. -/
  value : Value
  /-- The variable that a reference parameter shares. -/
  cell : Option CellId

/-- The argument that is a mere value. -/
def Argument.ofValue (value : Value) : Argument :=
  ⟨value, none⟩

/-- Something that an evaluation holds on to while it goes on computing. -/
inductive Held where
  | scope (scope : Scope)
  | value (value : Value)
  | values (values : List Value)
  | arguments (arguments : List Argument)
  | cell (cell : CellId)

/-- What is kept alive by being held. -/
def Held.refs : Held → List Ref
  | scope s => s.refs
  | value v => v.refs
  | values vs => Value.refsAll vs
  | arguments as => as.flatMap fun a => a.value.refs ++ (a.cell.map Ref.cell).toList
  | cell c => [.cell c]

/-- What an evaluation reads. -/
structure Env where
  /-- The phone table. -/
  table : Table
  /-- What is held by this evaluation and the ones around it, the latest first. -/
  held : List Held

/-- What an evaluation changes. -/
structure State where
  /-- Frames, cells, structures and tasks. -/
  heap : Heap
  /-- The methods of values by kind and name. -/
  methods : List ((Kind × String) × Callable)
  /-- Whether somebody asked the evaluation to stop. -/
  isCancelled : Bool
  /-- The printed lines in order. -/
  printed : Array String

/-- How an evaluation ends. -/
inductive Result (α : Type) where
  | done (value : α) (state : State)
  | failed (fault : Fault) (state : State)
  /-- The evaluation is nested more deeply than allowed, or it does not end. -/
  | exhausted (state : State)

/-- The state in which an evaluation ends. -/
def Result.state {α : Type} : Result α → State
  | done _ s => s
  | failed _ s => s
  | exhausted s => s

/-- A computation on the state of a script. -/
def Eval (α : Type) := Env → State → Result α

namespace Eval

variable {α β : Type}

/-- Ends with a value. -/
@[always_inline, inline]
protected def pure (a : α) : Eval α :=
  fun _ s => .done a s

/-- Goes on with the value of a computation. -/
@[always_inline, inline]
protected def bind (m : Eval α) (k : α → Eval β) : Eval β :=
  fun env s =>
    match m env s with
    | .done a s => k a env s
    | .failed fault s => .failed fault s
    | .exhausted s => .exhausted s

@[always_inline]
instance : Monad Eval where
  pure := Eval.pure
  bind := Eval.bind

/-- Ends with a fault. -/
@[inline]
def fault (fault : Fault) : Eval α :=
  fun _ s => .failed fault s

/-- Ends because the allowed depth is used up. -/
@[inline]
def exhausted : Eval α :=
  fun _ s => .exhausted s

/-- Ends as a plain computation does. -/
@[inline]
def ofExcept : Except Fault α → Eval α
  | .ok a => Eval.pure a
  | .error f => fault f

/-- The phone table. -/
@[inline]
def table : Eval Table :=
  fun env s => .done env.table s

/-- The word that a value spells. A reading without end uses up every depth. -/
def readWord (value : Value) : Eval Word :=
  fun env s =>
    match value.wordOf env.table with
    | some outcome => ofExcept outcome env s
    | none => .exhausted s

/-- Looks at the heap. -/
@[inline]
def inspect (look : Heap → α) : Eval α :=
  fun _ s => .done (look s.heap) s

/-- Changes the heap. -/
@[inline]
def modifyHeap (change : Heap → α × Heap) : Eval α :=
  fun _ ⟨heap, methods, isCancelled, printed⟩ =>
    let (a, heap) := change heap
    .done a ⟨heap, methods, isCancelled, printed⟩

/-- Holds on to something during a computation. -/
@[inline]
def holding (held : Held) (m : Eval α) : Eval α :=
  fun env s => m { env with held := held :: env.held } s

/-- Gives the faults of a computation a place. -/
@[inline]
def stamp (position : Position) (m : Eval α) : Eval α :=
  fun env s =>
    match m env s with
    | .failed fault s => .failed (fault.stamp position) s
    | other => other

/-- Handles the faults that a script may handle. -/
@[inline]
def rescue (m : Eval α) (handler : Fault → Eval α) : Eval α :=
  fun env s =>
    match m env s with
    | .failed fault s => if fault.isCatchable then handler fault env s else .failed fault s
    | other => other

/-- Turns the fault of a computation into a value. -/
@[inline]
def outcome (m : Eval α) : Eval (Except Fault α) :=
  fun env s =>
    match m env s with
    | .done a s => .done (.ok a) s
    | .failed fault s => .done (.error fault) s
    | .exhausted s => .exhausted s

/-- Fails once somebody has asked the evaluation to stop. -/
@[inline]
def checkpoint : Eval Unit :=
  fun _ s => if s.isCancelled then .failed .cancelled s else .done () s

/-- Asks the evaluation to stop at its next checkpoint. -/
def cancel : Eval Unit :=
  fun _ s => .done () { s with isCancelled := true }

/-- Prints a line. -/
def say (line : String) : Eval Unit :=
  fun _ s => .done () { s with printed := s.printed.push line }

/-- The method of a kind of values. -/
def method? (kind : Kind) (name : String) : Eval (Option Callable) :=
  fun _ s => .done (s.methods.lookup (kind, name)) s

/-- Makes a function the method of a kind of values, in place of an earlier one. -/
def setMethod (kind : Kind) (name : String) (callable : Callable) : Eval Unit :=
  fun _ s => .done () { s with
    methods := ((kind, name), callable) :: s.methods.filter (·.1 != (kind, name)) }

/-- What is held from outside the heap. -/
def roots (env : Env) (s : State) : List Ref :=
  env.held.flatMap Held.refs ++ s.methods.flatMap (·.2.refs)

/-- Whether a thing in the heap is still alive. -/
def isAlive (thing : Ref) : Eval Bool :=
  fun env s => .done (s.heap.isAlive (roots env s) thing) s

/-- A new scope inside another one. -/
def newChild (scope : Scope) : Eval Scope :=
  modifyHeap (·.newChild scope)

/-- Binds a name to a new variable in the innermost frame of a scope. -/
def declare (scope : Scope) (name : String) (value : Value) : Eval CellId :=
  modifyHeap (·.declare scope.frame name value)

/-- The value of a variable that may change is replaced, even if the update fails. -/
def updateCell (cell : CellId) (update : Value → Except Fault α × Value) : Eval α := do
  if ← inspect (·.isMutable cell) then
    let outcome ← modifyHeap fun heap =>
      let (outcome, value) := update (heap.read cell)
      (outcome, heap.put cell value)
    ofExcept outcome
  else fault (.raised .immutable)

end Eval

/-- What evaluating an expression amounts to. A result travels up to the call around it and a
stop to the loop around it. -/
inductive Flow where
  | value (value : Value)
  | returned (value : Value)
  | broken
deriving Inhabited

/-- The value that is carried along; a stop counts as null. -/
def Flow.carried : Flow → Value
  | value v | returned v => v
  | broken => .null

namespace Eval

/-- Goes on with the value of an expression, unless it is a result or a stop. -/
@[inline]
def andThen (m : Eval Flow) (k : Value → Eval Flow) : Eval Flow := do
  match ← m with
  | .value v => k v
  | other => pure other

/-- Goes on with the value of an expression and holds on to it. -/
@[inline]
def holdThen (m : Eval Flow) (k : Value → Eval Flow) : Eval Flow :=
  andThen m fun v => holding (.value v) (k v)

end Eval

end SoundLaw
