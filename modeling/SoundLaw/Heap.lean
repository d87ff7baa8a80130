import SoundLaw.Value

/-!
# The heap

Frames bind names to cells, and cells hold values. A cell may be bound under several names and
in several frames, which is how a reference parameter shares the variable of its caller. A cell
made for a fixed parameter never changes. Structures and tasks are kept beside the cells.

A name is looked up from the innermost frame of a scope outwards. An assignment writes to the
cell found this way, or declares the name in the innermost frame if there is none.
-/

namespace SoundLaw

/-- Storage for one variable. -/
structure Cell where
  /-- What the variable holds. -/
  value : Value
  /-- Whether the variable may be assigned to. -/
  isMutable : Bool
deriving Inhabited

/-- The names bound in one place of a script. -/
structure Frame where
  /-- The names with their cells. -/
  bindings : List (String × CellId)
  /-- The instance whose body the frame holds. -/
  owner : Option StructId
deriving Repr, Inhabited

/-- The methods by which an instance takes part in built-in operations. -/
structure Hooks where
  /-- Gives the text of the instance. -/
  text : Option Callable
  /-- Compares the instance with another value. -/
  equals : Option Callable
  /-- Gives the key of the instance in a dictionary. -/
  key : Option Callable
  /-- Gives the length of the instance. -/
  length : Option Callable
  /-- Gives an element of the instance. -/
  element : Option Callable
deriving Repr, Inhabited

/-- A structure. -/
inductive Struct where
  /-- A body waiting to be instantiated. -/
  | template (name : String) (body : Node) (scope : Scope)
  /-- An evaluated body; a static one is never instantiated. -/
  | object (name : String) (scope : Scope) (hooks : Hooks) (isStatic : Bool)
deriving Repr, Inhabited

/-- The written form of a structure that nobody asks. -/
def Struct.describe : Struct → String
  | template name .. => "<struct " ++ name ++ ">"
  | object name .. => name

/-- Work that was started apart from the script. -/
inductive Task where
  | finished (outcome : Except Fault Value)
  /-- Its outcome has been fetched. -/
  | joined
deriving Inhabited

/-- Everything that values refer to. -/
structure Heap where
  frames : Array Frame
  cells : Array Cell
  structs : Array Struct
  tasks : Array Task
  /-- How many function identities have been given out. -/
  identities : Nat
deriving Inhabited

namespace Heap

/-- The heap without anything. -/
def empty : Heap := ⟨#[], #[], #[], #[], 0⟩

/-- Adds a frame without names. -/
def newFrame (heap : Heap) : FrameId × Heap :=
  (heap.frames.size, { heap with frames := heap.frames.push ⟨[], none⟩ })

/-- Adds a cell. -/
def newCell (heap : Heap) (cell : Cell) : CellId × Heap :=
  (heap.cells.size, { heap with cells := heap.cells.push cell })

/-- Adds a structure. -/
def newStruct (heap : Heap) (struct : Struct) : StructId × Heap :=
  (heap.structs.size, { heap with structs := heap.structs.push struct })

/-- Adds a task. -/
def newTask (heap : Heap) (task : Task) : TaskId × Heap :=
  (heap.tasks.size, { heap with tasks := heap.tasks.push task })

/-- Gives out a function identity. -/
def newIdentity (heap : Heap) : Nat × Heap :=
  (heap.identities, { heap with identities := heap.identities + 1 })

/-- A scope without an outer one. -/
def newGlobal (heap : Heap) : Scope × Heap :=
  let (frame, heap) := heap.newFrame
  (⟨frame, []⟩, heap)

/-- A scope with a new frame inside another scope. -/
def newChild (heap : Heap) (scope : Scope) : Scope × Heap :=
  let (frame, heap) := heap.newFrame
  (scope.within frame, heap)

/-- The names bound in a frame. -/
def bindings (heap : Heap) (frame : FrameId) : List (String × CellId) :=
  match heap.frames[frame]? with
  | some frame => frame.bindings
  | none => []

/-- The cell of a name in one frame. -/
def localCell? (heap : Heap) (frame : FrameId) (name : String) : Option CellId :=
  (heap.bindings frame).lookup name

/-- The cell of a name in the nearest frame that binds it. -/
def lookup? (heap : Heap) (scope : Scope) (name : String) : Option CellId :=
  scope.chain.findSome? (heap.localCell? · name)

/-- The value in a cell. -/
def read (heap : Heap) (cell : CellId) : Value :=
  match heap.cells[cell]? with
  | some cell => cell.value
  | none => .null

/-- Whether a cell may change. -/
def isMutable (heap : Heap) (cell : CellId) : Bool :=
  match heap.cells[cell]? with
  | some cell => cell.isMutable
  | none => false

/-- The value of a name. -/
def get? (heap : Heap) (scope : Scope) (name : String) : Option Value :=
  (heap.lookup? scope name).map heap.read

/-- Binds a name in a list of bindings, in place of an earlier binding. -/
def rebind (name : String) (cell : CellId) : List (String × CellId) → List (String × CellId)
  | [] => [(name, cell)]
  | (name', cell') :: rest =>
    if name' = name then (name, cell) :: rest else (name', cell') :: rebind name cell rest

/-- Binds a name in a frame to a cell. -/
def bind (heap : Heap) (frame : FrameId) (name : String) (cell : CellId) : Heap :=
  { heap with
    frames := heap.frames.modify frame fun f => { f with bindings := rebind name cell f.bindings } }

/-- Binds a name in a frame to a new cell. -/
def declareCell (heap : Heap) (frame : FrameId) (name : String) (cell : Cell) : CellId × Heap :=
  let (id, heap) := heap.newCell cell
  (id, heap.bind frame name id)

/-- Binds a name in a frame to a new variable. -/
def declare (heap : Heap) (frame : FrameId) (name : String) (value : Value) : CellId × Heap :=
  heap.declareCell frame name ⟨value, true⟩

/-- Puts a value into a cell without asking whether it may change. -/
def put (heap : Heap) (cell : CellId) (value : Value) : Heap :=
  { heap with cells := heap.cells.modify cell fun c => { c with value := value } }

/-- Writes a value to a cell that may change. -/
def write (heap : Heap) (cell : CellId) (value : Value) : Except Fault Heap :=
  if heap.isMutable cell then .ok (heap.put cell value) else .error (.raised .immutable)

/-- Writes to the nearest variable of a name, or declares it in the innermost frame. -/
def assign (heap : Heap) (scope : Scope) (name : String) (value : Value) : Except Fault Heap :=
  match heap.lookup? scope name with
  | some cell => heap.write cell value
  | none => .ok (heap.declare scope.frame name value).2

/-- Marks a frame as the body of an instance; the first mark stays. -/
def setOwner (heap : Heap) (frame : FrameId) (struct : StructId) : Heap :=
  { heap with
    frames := heap.frames.modify frame fun f => { f with owner := f.owner.or (some struct) } }

/-- The instance whose body encloses a scope most closely. -/
def owner? (heap : Heap) (scope : Scope) : Option StructId :=
  scope.chain.findSome? fun frame => heap.frames[frame]?.bind (·.owner)

/-- The hooks of a structure; a template has none. -/
def hooks? (heap : Heap) (struct : StructId) : Option Hooks :=
  match heap.structs[struct]? with
  | some (.object _ _ hooks _) => some hooks
  | _ => none

/-- The written form of a structure that nobody asks. -/
def describe (heap : Heap) (struct : StructId) : String :=
  match heap.structs[struct]? with
  | some struct => struct.describe
  | none => ""

end Heap

end SoundLaw
