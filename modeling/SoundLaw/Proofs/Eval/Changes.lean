import SoundLaw.Proofs.Eval.Endings
import SoundLaw.Proofs.Eval.Running
import SoundLaw.Proofs.Heap.Storage

/-!
# What evaluations do to the heap

The heap changes in few ways. Frames, cells, structures and tasks are added, and function identities
are given out; a name is bound to a cell; a cell that may change is written to; a frame is marked as
the body of an instance; and a task is fetched. Whatever is evaluated, and however it ends, the heap
has gone through such changes one after another, apart from what commands of a host do. So what each
of these changes respects, and the commands of the host respect, holds over whole runs.
-/

namespace SoundLaw

namespace Heap

/-- One change of the heap. -/
inductive Change : Heap → Heap → Prop
  | newFrame (heap : Heap) : Change heap heap.newFrame.2
  | newCell (heap : Heap) (cell : Cell) : Change heap (heap.newCell cell).2
  | newStruct (heap : Heap) (struct : Struct) : Change heap (heap.newStruct struct).2
  | newTask (heap : Heap) (task : Task) : Change heap (heap.newTask task).2
  | newIdentity (heap : Heap) : Change heap heap.newIdentity.2
  | bind (heap : Heap) (frame : FrameId) (name : String) (cell : CellId) :
    Change heap (heap.bind frame name cell)
  | put {heap : Heap} {cell : CellId} (hcell : heap.isMutable cell) (value : Value) :
    Change heap (heap.put cell value)
  | setOwner (heap : Heap) (frame : FrameId) (struct : StructId) :
    Change heap (heap.setOwner frame struct)
  | fetch (heap : Heap) (task : TaskId) :
    Change heap { heap with tasks := heap.tasks.modify task fun _ => .joined }

/-! ## Relations that changes respect -/

/-- A frame holds the variables of an instance. -/
def IsInstance (heap : Heap) (frame : FrameId) : Prop :=
  ∃ (id : StructId) (name : String) (scope : Scope) (hooks : Hooks) (isStatic : Bool),
    heap.structs[id]? = some (.object name scope hooks isStatic) ∧ scope.frame = frame

/-- With a new structure only the frame of that structure becomes the frame of an instance. -/
theorem isInstance_of_newStruct {heap : Heap} {struct : Struct} {frame : FrameId}
    (h : (heap.newStruct struct).2.IsInstance frame) :
    heap.IsInstance frame ∨ ∃ name scope hooks isStatic,
      struct = .object name scope hooks isStatic ∧ scope.frame = frame := by
  obtain ⟨id, name, scope, hooks, isStatic, hobject, hscope⟩ := h
  have hstructs : (heap.newStruct struct).2.structs = heap.structs.push struct := rfl
  rw [hstructs, Array.getElem?_push] at hobject
  split at hobject
  · exact .inr ⟨name, scope, hooks, isStatic, Option.some.inj hobject, hscope⟩
  · exact .inl ⟨id, name, scope, hooks, isStatic, hobject, hscope⟩

/-- A change aside from names: frames keep the names that are bound in them, and no instance is
added. -/
structure Aside (before after : Heap) : Prop where
  size : before.frames.size ≤ after.frames.size
  bindings : ∀ frame < before.frames.size, after.bindings frame = before.bindings frame
  instances : ∀ frame, after.IsInstance frame → before.IsInstance frame

namespace Aside

/-- What leaves the frames and structures alone is aside from names. -/
theorem of_eq {before after : Heap} (hframes : after.frames = before.frames)
    (hstructs : after.structs = before.structs) : Aside before after where
  size := Nat.le_of_eq (congrArg Array.size hframes.symm)
  bindings frame _ := by rw [Heap.bindings, hframes, Heap.bindings]
  instances frame hframe := by
    obtain ⟨id, name, scope, hooks, isStatic, hobject, hscope⟩ := hframe
    rw [hstructs] at hobject
    exact ⟨id, name, scope, hooks, isStatic, hobject, hscope⟩

/-- A new frame. -/
theorem newFrame (heap : Heap) : Aside heap heap.newFrame.2 where
  size := by
    change heap.frames.size ≤ (heap.frames.push _).size
    rw [Array.size_push]
    exact Nat.le_succ _
  bindings _ hframe := bindings_newFrame hframe
  instances _ hframe := hframe

/-- A new template is no instance. -/
theorem newTemplate (heap : Heap) (name : String) (body : Node) (scope : Scope) :
    Aside heap (heap.newStruct (.template name body scope)).2 where
  size := Nat.le_refl _
  bindings _ _ := rfl
  instances frame hframe := by
    rcases isInstance_of_newStruct hframe with hbefore | ⟨_, _, _, _, hobject, -⟩
    · exact hbefore
    · cases hobject

/-- A mark of an instance. -/
theorem setOwner (heap : Heap) (frame : FrameId) (struct : StructId) :
    Aside heap (heap.setOwner frame struct) where
  size := Nat.le_of_eq Array.size_modify.symm
  bindings other _ := bindings_setOwner heap frame other struct
  instances _ hframe := hframe

end Aside

/-- A relation between heaps that everything respects that a run does to the heap: changes aside
from names, bindings and instances in open scopes, and declarations of members that an instance
lacks. A new frame is open, or it is of no concern. -/
structure Respects (T : Heap → Heap → Prop) (Open : Scope → Prop) : Prop where
  refl (heap : Heap) : T heap heap
  trans {before between after : Heap} (hfirst : T before between) (hsecond : T between after) :
    T before after
  aside {before after : Heap} (hchange : Change before after) (haside : Aside before after) :
    T before after
  newChild (heap : Heap) (scope : Scope) : Open (heap.newChild scope).1 ∨ ∀ after, T heap after
  bind {scope : Scope} (hscope : Open scope) (heap : Heap) (name : String) (cell : CellId) :
    T heap (heap.bind scope.frame name cell)
  newObject {scope : Scope} (hscope : Open scope) (heap : Heap) (name : String) (hooks : Hooks)
    (isStatic : Bool) : T heap (heap.newStruct (.object name scope hooks isStatic)).2
  member {heap : Heap} {frame : FrameId} {name : String} (hframe : heap.IsInstance frame)
    (hname : heap.localCell? frame name = none) : T heap (heap.declare frame name .null).2

namespace Respects

variable {T : Heap → Heap → Prop} {Open : Scope → Prop}

/-- The declaration of a variable in an open scope. -/
theorem declareCell (hT : Respects T Open) {scope : Scope} (hscope : Open scope) (heap : Heap)
    (name : String) (cell : Cell) : T heap (heap.declareCell scope.frame name cell).2 :=
  hT.trans (hT.aside (.newCell heap cell) (.of_eq rfl rfl)) (hT.bind hscope _ name _)

/-- One function becomes a method. -/
theorem makeMethod (hT : Respects T Open) (heap : Heap) (frame : FrameId) (cell : CellId) :
    T heap (heap.makeMethod frame cell) := by
  unfold Heap.makeMethod
  split
  · next hmutable _ =>
    split
    · have hput : heap.newIdentity.2.isMutable cell := hmutable
      exact hT.trans (hT.aside (.newIdentity heap) (.of_eq rfl rfl))
        (hT.aside (.put hput _) (.of_eq rfl rfl))
    · exact hT.refl heap
  · exact hT.refl heap

/-- The functions of an instance become methods. -/
theorem makeMethods (hT : Respects T Open) (heap : Heap) (frame : FrameId) :
    T heap (heap.makeMethods frame) := by
  unfold Heap.makeMethods
  generalize heap.bindings frame = bindings
  induction bindings generalizing heap with
  | nil => exact hT.refl heap
  | cons binding rest ih => exact hT.trans (hT.makeMethod heap frame binding.2) (ih _)

end Respects

end Heap

namespace Eval

variable {α β : Type}

/-- However a computation ends, the heaps before and after it are related. -/
def Moves (T : Heap → Heap → Prop) (m : Eval α) : Prop :=
  ∀ (env : Env) (s : State), T s.heap (m env s).state.heap

namespace Moves

variable {T : Heap → Heap → Prop} {Open : Scope → Prop}

/-- A computation that looks at something. -/
theorem look (hT : Heap.Respects T Open) {m : Eval α} (h : ∀ env s, ∃ a, m env s = .done a s) :
    m.Moves T := by
  intro env s
  obtain ⟨a, ha⟩ := h env s
  rw [ha]
  exact hT.refl _

/-- A fault. -/
theorem fault (hT : Heap.Respects T Open) (f : Fault) : (Eval.fault f : Eval α).Moves T :=
  fun _ s => hT.refl s.heap

/-- A change of the heap. -/
theorem modifyHeap {change : Heap → α × Heap} (h : ∀ heap : Heap, T heap (change heap).2) :
    (Eval.modifyHeap change).Moves T :=
  fun _ s => h s.heap

/-- Two computations after one another. -/
theorem bind (hT : Heap.Respects T Open) {m : Eval α} {k : α → Eval β} (hm : m.Moves T)
    (hk : ∀ a, (k a).Moves T) : (m >>= k).Moves T := by
  intro env s
  have hfirst := hm env s
  change T s.heap (Eval.bind m k env s).state.heap
  unfold Eval.bind
  cases hend : m env s with
  | done a s' =>
    rw [hend] at hfirst
    exact hT.trans hfirst (hk a env s')
  | failed fault s' =>
    rw [hend] at hfirst
    exact hfirst
  | exhausted s' =>
    rw [hend] at hfirst
    exact hfirst

/-- A plain computation. -/
theorem ofExcept (hT : Heap.Respects T Open) (x : Except Fault α) :
    (Eval.ofExcept x).Moves T := by
  cases x with
  | ok a => exact look hT fun _ _ => ⟨a, rfl⟩
  | error f => exact fault hT f

/-- The reading of a word. -/
theorem readWord (hT : Heap.Respects T Open) (value : Value) : (Eval.readWord value).Moves T := by
  intro env s
  unfold Eval.readWord
  split
  · exact ofExcept hT _ env s
  · exact hT.refl _

/-- A computation whose faults get a place. -/
theorem stamp {m : Eval α} (hm : m.Moves T) (p : Position) : (Eval.stamp p m).Moves T := by
  intro env s
  have hend := hm env s
  unfold Eval.stamp
  split
  · next fault s' hfailed =>
    rw [hfailed] at hend
    exact hend
  · exact hend

/-- A computation whose faults are handled. -/
theorem rescue (hT : Heap.Respects T Open) {m : Eval α} {handler : Fault → Eval α}
    (hm : m.Moves T) (hhandler : ∀ f, (handler f).Moves T) : (Eval.rescue m handler).Moves T := by
  intro env s
  have hend := hm env s
  unfold Eval.rescue
  split
  · next fault s' hfailed =>
    rw [hfailed] at hend
    split
    · exact hT.trans hend (hhandler fault env s')
    · exact hend
  · exact hend

/-- A computation whose fault becomes a value. -/
theorem outcome {m : Eval α} (hm : m.Moves T) : (Eval.outcome m).Moves T := by
  intro env s
  have hend := hm env s
  unfold Eval.outcome
  cases hresult : m env s with
  | _ =>
    rw [hresult] at hend
    exact hend

/-- A checkpoint. -/
theorem checkpoint (hT : Heap.Respects T Open) : Eval.checkpoint.Moves T := by
  intro env s
  unfold Eval.checkpoint
  split <;> exact hT.refl _

/-- What is done in a new scope. -/
theorem newChild (hT : Heap.Respects T Open) {k : Scope → Eval α} (scope : Scope)
    (hk : ∀ inner, Open inner → (k inner).Moves T) : (Eval.newChild scope >>= k).Moves T := by
  intro env s
  rcases hT.newChild s.heap scope with hopen | hany
  · have hframe := hT.aside (.newFrame s.heap) (.newFrame s.heap)
    exact hT.trans hframe (hk _ hopen env { s with heap := s.heap.newFrame.2 })
  · exact hany _

/-- A member that its instance lacks is declared. -/
theorem memberCell (hT : Heap.Respects T Open) (name : String) (value : Value) :
    (Evaluator.memberCell name value).Moves T := by
  intro env s
  cases value with
  | struct id =>
    have hlook : Eval.inspect (·.structs[id]?) env s = .done s.heap.structs[id]? s := rfl
    rw [Evaluator.memberCell, bind_of_done hlook]
    cases hstruct : s.heap.structs[id]? with
    | none => exact hT.refl _
    | some struct =>
      cases struct with
      | template => exact hT.refl _
      | object template scope hooks isStatic =>
        have hcell : Eval.inspect (·.localCell? scope.frame name) env s =
            .done (s.heap.localCell? scope.frame name) s := rfl
        dsimp only
        rw [bind_of_done hcell]
        cases hname : s.heap.localCell? scope.frame name with
        | some cell => exact hT.refl _
        | none => exact hT.member ⟨id, _, scope, _, _, hstruct, rfl⟩ hname
  | _ => exact hT.refl _

/-- An update of a variable writes to a cell that may change. -/
theorem updateCell (hT : Heap.Respects T Open) (cell : CellId)
    (update : Value → Except Fault α × Value) : (Eval.updateCell cell update).Moves T := by
  intro env s
  change T s.heap ((if s.heap.isMutable cell = true then _ else _ : Eval α) env s).state.heap
  split
  · next hmutable =>
    have hwrite : T s.heap (s.heap.put cell (update (s.heap.read cell)).2) :=
      hT.aside (.put hmutable _) (.of_eq rfl rfl)
    exact hT.trans hwrite (ofExcept hT (update (s.heap.read cell)).1 env { s with heap := _ })
  · exact hT.refl _

/-- Fetching the outcome of a task. -/
theorem joinTask (hT : Heap.Respects T Open) (arguments : List Value) :
    (SoundLaw.joinTask arguments).Moves T := by
  unfold SoundLaw.joinTask
  refine bind hT (ofExcept hT _) fun value => ?_
  split
  · next id =>
    refine bind hT (look hT fun _ _ => ⟨_, rfl⟩) fun task => ?_
    split
    · next result =>
      refine bind hT (modifyHeap fun heap => ?_) fun _ => ofExcept hT result
      exact hT.aside (.fetch heap id) (.of_eq rfl rfl)
    · exact fault hT _
  · exact fault hT _

/-- The end of a construction in an open scope. -/
theorem finishInstance (hT : Heap.Respects T Open) (name : String) (isStatic : Bool)
    {scope : Scope} (hscope : Open scope) :
    (Evaluator.finishInstance name isStatic scope).Moves T := by
  refine modifyHeap fun heap => ?_
  have hmethods := hT.makeMethods heap scope.frame
  have hobject := hT.newObject hscope (heap.makeMethods scope.frame) name
    (Hooks.find (heap.makeMethods scope.frame) scope.frame) isStatic
  exact hT.trans (hT.trans hmethods hobject) (hT.aside (.setOwner ..) (.setOwner ..))

end Moves

/-- That computations move the heap along a relation that changes respect is handed on from parts to
the whole. -/
theorem runCongruence_moves {T : Heap → Heap → Prop} {Open : Scope → Prop}
    (hT : Heap.Respects T Open) : RunCongruence (fun m _ => m.Moves T) Open where
  look := .look hT
  fault _ := .fault hT _
  readWord := .readWord hT
  bind := .bind hT
  holding _ hm := fun _ s => hm _ s
  stamp p hm := hm.stamp p
  rescue := .rescue hT
  checkpoint := .checkpoint hT
  newChild := .newChild hT
  declare hscope name _ := .modifyHeap fun heap => hT.declareCell hscope heap name _
  memberCell := .memberCell hT
  updateCell cell _ := .updateCell hT cell _
  setMethod _ _ _ := fun _ s => hT.refl s.heap
  newIdentity := .modifyHeap fun heap => hT.aside (.newIdentity heap) (.of_eq rfl rfl)
  newTemplate _ _ _ := .modifyHeap fun heap => hT.aside (.newStruct heap _) (.newTemplate heap ..)
  exhausted := fun _ s => hT.refl s.heap
  say _ := fun _ s => hT.refl s.heap
  cancel := fun _ s => hT.refl s.heap
  spawn hm := .bind hT (.outcome hm) fun _ =>
    .bind hT (.modifyHeap fun heap => hT.aside (.newTask heap _) (.of_eq rfl rfl)) fun _ =>
      .look hT fun _ _ => ⟨_, rfl⟩
  joinTask := .joinTask hT
  shareCell hscope name cell := .modifyHeap fun heap => hT.bind hscope heap name cell
  declareCell hscope name cell := .modifyHeap fun heap => hT.declareCell hscope heap name cell
  finishInstance name isStatic _ hscope := .finishInstance hT name isStatic hscope

end Eval

end SoundLaw
