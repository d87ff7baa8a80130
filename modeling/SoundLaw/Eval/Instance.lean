import SoundLaw.Eval.Call

/-!
# Structures and instances

Defining a structure makes a template, or at once the only instance of a static structure.
Constructing an instance evaluates the body in a frame of its own, where plain assignments
declare the variables of the instance. Functions that were made directly in the body become
methods: they see the frame without keeping it alive. Then the hooks are looked up and the
initializer is called.
-/

namespace SoundLaw

open Eval

/-- The functions of an instance that are its hooks. -/
def Hooks.find (heap : Heap) (frame : FrameId) : Hooks :=
  let function? (name : String) : Option Callable :=
    match (heap.localCell? frame name).map heap.read with
    | some (.function callable) => some callable
    | _ => none
  ⟨function? "getStr", function? "equals", function? "getHash", function? "getLen",
    function? "getIndex"⟩

namespace Heap

/-- Makes the function in a cell a method of the instance with a given frame, if it was made
directly in its body and the cell may change. -/
def makeMethod (heap : Heap) (frame : FrameId) (cell : CellId) : Heap :=
  match heap.isMutable cell, heap.read cell with
  | true, .function (.script ⟨_, definition, .held scope⟩) =>
    if scope.frame = frame then
      let (identity, heap) := heap.newIdentity
      heap.put cell (.function (.script ⟨identity, definition, .weak scope⟩))
    else heap
  | _, _ => heap

/-- Makes methods of all functions of an instance that were made directly in its body. -/
def makeMethods (heap : Heap) (frame : FrameId) : Heap :=
  (heap.bindings frame).foldl (fun heap binding => heap.makeMethod frame binding.2) heap

end Heap

/-- The statements of the body of a structure. -/
def Node.bodyStatements : Node → List Node
  | .sequence _ .block statements => statements
  | statement => [statement]

namespace Evaluator

/-- Evaluates a statement in the body of a structure. -/
def bodyStatement (e : Evaluator) (instanceScope : Scope) (statement : Node) : Eval Unit := do
  match statement with
  | .assign _ .assign (.leaf _ (.name name)) value =>
    let flow ← e.evaluate value instanceScope
    discard (declare instanceScope name flow.carried)
  | _ => discard (e.evaluate statement instanceScope)

/-- Evaluates the statements in the body of a structure. -/
def bodyStatements (e : Evaluator) (instanceScope : Scope) : List Node → Eval Unit
  | [] => return ()
  | statement :: rest => do
    e.bodyStatement instanceScope statement
    bodyStatements e instanceScope rest

/-- Turns an evaluated body into an instance. -/
def finishInstance (name : String) (isStatic : Bool) (instanceScope : Scope) : Eval StructId :=
  modifyHeap fun heap =>
    let heap := heap.makeMethods instanceScope.frame
    let hooks := Hooks.find heap instanceScope.frame
    let (id, heap) := heap.newStruct (.object name instanceScope hooks isStatic)
    (id, heap.setOwner instanceScope.frame id)

/-- Calls the initializer of a new instance. -/
def initialise (e : Evaluator) (instanceScope : Scope) (arguments : List Argument) :
    Eval Unit := do
  match ← inspect fun heap => (heap.localCell? instanceScope.frame "init").map heap.read with
  | some (.function callable) =>
    discard (holding (.value (.function callable)) (e.invoke callable arguments))
  | _ =>
    if arguments.isEmpty then return ()
    else fault (.raised (.arityMismatch 0 arguments.length))

/-- Makes an instance of a structure. -/
def construct (e : Evaluator) (name : String) (body : Node) (scope : Scope) (isStatic : Bool)
    (arguments : List Argument) : Eval Value := do
  checkpoint
  let instanceScope ← newChild scope
  holding (.scope instanceScope) do
    holding (.arguments arguments) (e.bodyStatements instanceScope body.bodyStatements)
    let id ← finishInstance name isStatic instanceScope
    holding (.value (.struct id)) (e.initialise instanceScope arguments)
    return .struct id

/-- Evaluates the definition of a structure. -/
def define (e : Evaluator) (name : String) (isStatic : Bool) (body : Node) (scope : Scope) :
    Eval Flow := do
  let value ←
    if isStatic then e.construct name body scope true []
    else do
      let id ← modifyHeap (·.newStruct (.template name body scope))
      pure (.struct id)
  discard (declare scope name value)
  return .value value

/-- Makes an instance of the structure that a value is. -/
def instantiate (e : Evaluator) (target : Value) (arguments : List Argument) : Eval Value := do
  match target with
  | .struct id =>
    match ← inspect (·.structs[id]?) with
    | some (.template name body scope) => e.construct name body scope false arguments
    | some (.object name _ _ true) =>
      fault (.failed ("static structure " ++ name ++ " cannot be instantiated"))
    | _ => fault (.mismatch "instantiate" "an instance")
  | other => fault (other.unfit "instantiate")

/-- Evaluates the creation of an instance. -/
def create (e : Evaluator) (template : Node) (nodes : List Node) (scope : Scope) : Eval Flow :=
  holdThen (e.evaluate template scope) fun target => do
    let arguments ← e.arguments scope [] nodes
    return .value (← e.instantiate target arguments)

end Evaluator

end SoundLaw
