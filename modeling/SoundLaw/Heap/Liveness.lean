import SoundLaw.Heap
import Std.Data.HashSet

/-!
# What is alive

Everything in the heap is kept alive by what refers to it: a frame by the scopes that contain
it, a cell by the frames that bind it, and all of them by the values in cells, by the hooks of
instances and by whatever an evaluation holds at the moment. A thing whose last reference is
given up is gone, together with the references it held. Things that refer to each other in a
circle keep each other alive.

So the living things are the largest collection in which everything is held from outside or
referred to by a member. It is found by starting with the whole heap and removing what nobody
refers to, until nothing is left to remove.

A method refers to the frame of its instance, and a frame to the instance it belongs to, without
keeping them alive.
-/

namespace SoundLaw

/-- A thing in the heap. -/
inductive Ref where
  | frame (id : FrameId)
  | cell (id : CellId)
  | struct (id : StructId)
  | task (id : TaskId)
deriving DecidableEq, Hashable, Repr, Inhabited

/-- The frames that a scope keeps alive. -/
def Scope.refs (scope : Scope) : List Ref :=
  scope.chain.map .frame

/-- What a function keeps alive. -/
def Callable.refs : Callable → List Ref
  | script ⟨_, _, .held scope⟩ => scope.refs
  | _ => []

namespace Value

mutual

/-- What a value keeps alive. -/
def refs : Value → List Ref
  | vector elements => refsAll elements
  | dictionary entries => refsEntries entries
  | function callable => callable.refs
  | struct id => [.struct id]
  | task id => [.task id]
  | _ => []

/-- What several values keep alive. -/
def refsAll : List Value → List Ref
  | [] => []
  | value :: rest => value.refs ++ refsAll rest

/-- What the entries of a dictionary keep alive. -/
def refsEntries : List (String × Value) → List Ref
  | [] => []
  | (_, value) :: rest => value.refs ++ refsEntries rest

end

end Value

/-- The functions among the hooks of an instance. -/
def Hooks.callables (hooks : Hooks) : List Callable :=
  [hooks.text, hooks.equals, hooks.key, hooks.length, hooks.element].filterMap id

/-- What a structure keeps alive. -/
def Struct.refs : Struct → List Ref
  | template _ _ scope => scope.refs
  | object _ scope hooks _ => scope.refs ++ hooks.callables.flatMap Callable.refs

/-- What a task keeps alive. -/
def Task.refs : Task → List Ref
  | finished (.ok value) => value.refs
  | _ => []

namespace Heap

/-- What a thing in the heap keeps alive. -/
def refsOf (heap : Heap) : Ref → List Ref
  | .frame id => (heap.bindings id).map fun (_, cell) => .cell cell
  | .cell id => (heap.read id).refs
  | .struct id =>
    match heap.structs[id]? with
    | some struct => struct.refs
    | none => []
  | .task id =>
    match heap.tasks[id]? with
    | some task => task.refs
    | none => []

/-- Everything in the heap. -/
def contents (heap : Heap) : List Ref :=
  (List.range heap.frames.size).map .frame ++ (List.range heap.cells.size).map .cell ++
    (List.range heap.structs.size).map .struct ++ (List.range heap.tasks.size).map .task

/-- What the roots and some things in the heap refer to. -/
def referred (heap : Heap) (roots : List Ref) (things : List Ref) : Std.HashSet Ref :=
  things.foldl (fun set thing => set.insertMany (heap.refsOf thing)) (Std.HashSet.ofList roots)

/-- Removes what nobody refers to, in as many rounds as there is something to remove. -/
def sustained (heap : Heap) (roots : List Ref) : Nat → List Ref → List Ref
  | 0, things => things
  | rounds + 1, things =>
    let referred := heap.referred roots things
    let kept := things.filter referred.contains
    if kept.length = things.length then things else sustained heap roots rounds kept

/-- Whether a thing is met on following references, in at most so many steps. -/
def isReached (heap : Heap) (thing : Ref) : Nat → Std.HashSet Ref → List Ref → Bool
  | 0, _, _ => false
  | _ + 1, _, [] => false
  | steps + 1, seen, ref :: rest =>
    if ref = thing then true
    else if seen.contains ref then isReached heap thing steps seen rest
    else isReached heap thing steps (seen.insert ref) (heap.refsOf ref ++ rest)

/-- How many references are followed before the whole heap is looked at. -/
def searchSteps : Nat := 100000

/-- Whether a thing is alive when the roots are held from outside. What is reached from the
roots is alive; the whole heap is looked at for the rest. -/
def isAlive (heap : Heap) (roots : List Ref) (thing : Ref) : Bool :=
  heap.isReached thing searchSteps ∅ roots ||
    (let things := heap.contents
     (heap.sustained roots (things.length + 1) things).contains thing)

end Heap

end SoundLaw
