import SoundLaw.Proofs.Eval.Endings
import SoundLaw.Proofs.Eval.Running

/-!
# Faults of evaluating

An evaluation fails with an evaluation fault or because it was cancelled. The outcome of a task
comes out again when it is fetched, so this holds as long as the tasks that are waiting came out in
the same way, and the evaluation leaves only such tasks behind. The commands of the host have to do
their part: a fault of a command is a fault of the evaluation that calls it.
-/

namespace SoundLaw

/-- A fault that an evaluation may end with. -/
def Fault.OfEvaluation (fault : Fault) : Prop :=
  fault = .cancelled ∨ fault.faultClass = .evaluation

/-- Giving a fault a place has no influence on its class. -/
theorem Fault.OfEvaluation.stamp {fault : Fault} (h : fault.OfEvaluation) (p : Position) :
    (fault.stamp p).OfEvaluation := by
  rcases h with rfl | h
  · exact Or.inl rfl
  · cases fault with
    | evaluation cause place =>
      cases place with
      | none => exact Or.inr rfl
      | some place => exact Or.inr rfl
    | _ => cases h

/-- A fault with a place was cancelled or knows where it happened. -/
theorem Fault.OfEvaluation.position_stamp {fault : Fault} (h : fault.OfEvaluation) (p : Position) :
    fault.stamp p = .cancelled ∨
      ∃ cause place, fault.stamp p = .evaluation cause (some place) := by
  rcases h with rfl | h
  · exact Or.inl rfl
  · cases fault with
    | evaluation cause place =>
      cases place with
      | none => exact Or.inr ⟨cause, p, rfl⟩
      | some place => exact Or.inr ⟨cause, place, rfl⟩
    | _ => cases h

namespace Heap

/-- The tasks that are waiting came out as evaluations do. -/
def TasksEvaluated (heap : Heap) : Prop :=
  ∀ fault, .finished (.error fault) ∈ heap.tasks → fault.OfEvaluation

/-- A task that came out as evaluations do may wait. -/
theorem TasksEvaluated.newTask {heap : Heap} (h : heap.TasksEvaluated)
    {outcome : Except Fault Value}
    (houtcome : ∀ fault, outcome = .error fault → fault.OfEvaluation) :
    (heap.newTask (.finished outcome)).2.TasksEvaluated := by
  intro fault hmem
  rcases Array.mem_push.mp hmem with hmem | heq
  · exact h fault hmem
  · cases heq
    exact houtcome fault rfl

/-- A task that is fetched waits no longer. -/
theorem TasksEvaluated.fetch {heap : Heap} (h : heap.TasksEvaluated) (id : TaskId) :
    TasksEvaluated { heap with tasks := heap.tasks.modify id fun _ => .joined } := by
  intro fault hmem
  obtain ⟨i, hi⟩ := Array.mem_iff_getElem?.mp hmem
  rw [Array.getElem?_modify] at hi
  split at hi
  · obtain ⟨task, -, htask⟩ := Option.map_eq_some_iff.mp hi
    cases htask
  · exact h fault (Array.mem_iff_getElem?.mpr ⟨i, hi⟩)

/-- Making methods leaves the tasks alone. -/
theorem tasks_makeMethods (heap : Heap) (frame : FrameId) :
    (heap.makeMethods frame).tasks = heap.tasks := by
  have hstep (heap : Heap) (cell : CellId) : (heap.makeMethod frame cell).tasks = heap.tasks := by
    unfold makeMethod
    split
    · split
      · rfl
      · rfl
    · rfl
  unfold makeMethods
  generalize heap.bindings frame = bindings
  induction bindings generalizing heap with
  | nil => rfl
  | cons binding rest ih => rw [List.foldl_cons, ih, hstep]

end Heap

/-- A computation ended as evaluations do. -/
def Result.Evaluated {α : Type} : Result α → Prop
  | done _ s => s.heap.TasksEvaluated
  | failed fault s => fault.OfEvaluation ∧ s.heap.TasksEvaluated
  | exhausted s => s.heap.TasksEvaluated

namespace Eval

variable {α β : Type}

/-- With tasks that came out as evaluations do, a computation ends as evaluations do. -/
def EndsEvaluated (m : Eval α) : Prop :=
  ∀ env s, s.heap.TasksEvaluated → (m env s).Evaluated

namespace EndsEvaluated

/-- A computation leaves tasks that came out as evaluations do. -/
theorem state {m : Eval α} (hm : m.EndsEvaluated) (env : Env) {s : State}
    (hs : s.heap.TasksEvaluated) : (m env s).state.heap.TasksEvaluated := by
  have hend := hm env s hs
  cases hresult : m env s with
  | failed fault s' =>
    rw [hresult] at hend
    exact hend.2
  | _ =>
    rw [hresult] at hend
    exact hend

/-- Two computations after one another. -/
theorem bind {m : Eval α} {k : α → Eval β} (hm : m.EndsEvaluated)
    (hk : ∀ a, (k a).EndsEvaluated) : (m >>= k).EndsEvaluated := by
  intro env s hs
  have hfirst := hm env s hs
  change (Eval.bind m k env s).Evaluated
  unfold Eval.bind
  cases hend : m env s with
  | done a s' =>
    rw [hend] at hfirst
    exact hk a env s' hfirst
  | failed fault s' =>
    rw [hend] at hfirst
    exact hfirst
  | exhausted s' =>
    rw [hend] at hfirst
    exact hfirst

/-- A computation that looks at something. -/
theorem look {m : Eval α} (h : ∀ env s, ∃ a, m env s = .done a s) : m.EndsEvaluated := by
  intro env s hs
  obtain ⟨a, ha⟩ := h env s
  rw [ha]
  exact hs

/-- An evaluation fault. -/
theorem fault {f : Fault} (h : f.faultClass = .evaluation) :
    (Eval.fault f : Eval α).EndsEvaluated :=
  fun _ _ hs => ⟨Or.inr h, hs⟩

/-- A change of the heap that leaves the tasks alone. -/
theorem modifyHeap {change : Heap → α × Heap} (h : ∀ heap, (change heap).2.tasks = heap.tasks) :
    (Eval.modifyHeap change).EndsEvaluated := by
  intro env s hs fault hmem
  rw [h] at hmem
  exact hs fault hmem

/-- The reading of a word. -/
theorem readWord (value : Value) : (Eval.readWord value).EndsEvaluated := by
  intro env s hs
  unfold Eval.readWord
  split
  · next outcome houtcome =>
    cases outcome with
    | ok word => exact hs
    | error f => exact ⟨Or.inr (Value.failsWith_wordOf houtcome f rfl), hs⟩
  · exact hs

/-- A computation whose faults get a place. -/
theorem stamp {m : Eval α} (hm : m.EndsEvaluated) (p : Position) :
    (Eval.stamp p m).EndsEvaluated := by
  intro env s hs
  have hend := hm env s hs
  unfold Eval.stamp
  split
  · next fault s' hfailed =>
    rw [hfailed] at hend
    exact ⟨hend.1.stamp p, hend.2⟩
  · exact hend

/-- A computation whose faults are handled. -/
theorem rescue {m : Eval α} {handler : Fault → Eval α} (hm : m.EndsEvaluated)
    (hhandler : ∀ f, (handler f).EndsEvaluated) : (Eval.rescue m handler).EndsEvaluated := by
  intro env s hs
  have hend := hm env s hs
  unfold Eval.rescue
  split
  · next fault s' hfailed =>
    rw [hfailed] at hend
    split
    · exact hhandler fault env s' hend.2
    · exact hend
  · exact hend

/-- A checkpoint. -/
theorem checkpoint : Eval.checkpoint.EndsEvaluated := by
  intro env s hs
  unfold Eval.checkpoint
  split
  · exact ⟨Or.inl rfl, hs⟩
  · exact hs

/-- An update of a variable. -/
theorem updateCell {update : Value → Except Fault α × Value} (cell : CellId)
    (hupdate : ∀ value, FailsWith .evaluation (update value).1) :
    (Eval.updateCell cell update).EndsEvaluated := by
  intro env s hs
  change Result.Evaluated ((if s.heap.isMutable cell = true then _ else _ : Eval α) env s)
  split
  · change Result.Evaluated (Eval.ofExcept (update (s.heap.read cell)).1 env
      { s with heap := s.heap.put cell (update (s.heap.read cell)).2 })
    cases houtcome : (update (s.heap.read cell)).1 with
    | ok a => exact hs
    | error f => exact ⟨Or.inr (hupdate _ f houtcome), hs⟩
  · exact ⟨Or.inr rfl, hs⟩

/-- Work that is started apart. -/
theorem spawn {m : Eval Value} (hm : m.EndsEvaluated) :
    (do
      let outcome ← Eval.outcome m
      return Value.task (← Eval.modifyHeap (·.newTask (.finished outcome)))).EndsEvaluated := by
  intro env s hs
  have hend := hm env s hs
  change Result.Evaluated (Eval.bind (Eval.outcome m) _ env s)
  rw [Eval.bind, Eval.outcome]
  cases hm : m env s with
  | done a s' =>
    rw [hm] at hend
    exact hend.newTask fun fault heq => by cases heq
  | failed f s' =>
    rw [hm] at hend
    refine hend.2.newTask fun fault heq => ?_
    cases heq
    exact hend.1
  | exhausted s' =>
    rw [hm] at hend
    exact hend

/-- Fetching the outcome of a task. -/
theorem joinTask (arguments : List Value) : (SoundLaw.joinTask arguments).EndsEvaluated := by
  unfold SoundLaw.joinTask
  refine bind ?_ fun value => ?_
  · cases harguments : oneArgument arguments with
    | ok value => exact look fun _ _ => ⟨value, rfl⟩
    | error f => exact fault (failsWith_oneArgument arguments f harguments)
  · split
    · next id =>
      intro env s hs
      have hlook : Eval.inspect (·.tasks[id]?) env s = .done s.heap.tasks[id]? s := rfl
      rw [Eval.bind_of_done hlook]
      rcases htask : s.heap.tasks[id]? with _ | (_ | f) | _
      · exact ⟨Or.inr rfl, hs⟩
      · exact ⟨hs _ (Array.mem_of_getElem? htask), hs.fetch id⟩
      · exact hs.fetch id
      · exact ⟨Or.inr rfl, hs⟩
    · exact fault rfl

end EndsEvaluated

/-- Ending as evaluations do is handed on from parts to the whole. -/
theorem runCongruence_endsEvaluated :
    RunCongruence (fun m _ => m.EndsEvaluated) (fun _ => True) where
  look := .look
  fault := .fault
  readWord := .readWord
  bind := .bind
  holding _ hm := fun _ s hs => hm _ s hs
  stamp p hm := hm.stamp p
  rescue := .rescue
  checkpoint := .checkpoint
  newChild _ hk := .bind (.modifyHeap fun _ => rfl) fun inner => hk inner trivial
  declare _ _ _ := .modifyHeap fun _ => rfl
  memberCell := Evaluator.memberCell_related (R := fun m _ => m.EndsEvaluated) .look .fault .bind
    fun _ _ _ => .modifyHeap fun _ => rfl
  updateCell := .updateCell
  setMethod _ _ _ := fun _ _ hs => hs
  newIdentity := .modifyHeap fun _ => rfl
  newTemplate _ _ _ := .modifyHeap fun _ => rfl
  exhausted := fun _ _ hs => hs
  say _ := fun _ _ hs => hs
  cancel := fun _ _ hs => hs
  spawn := .spawn
  joinTask := .joinTask
  shareCell _ _ _ := .modifyHeap fun _ => rfl
  declareCell _ _ _ := .modifyHeap fun _ => rfl
  finishInstance _ _ scope _ := .modifyHeap fun heap => heap.tasks_makeMethods scope.frame

end Eval

/-- A command of a host ends as evaluations do, if what it asks the evaluator for does so: it fails
with evaluation faults or because of a cancellation only, and leaves no task behind that came out in
another way. -/
def HostCommand.EndsEvaluated (command : HostCommand) : Prop :=
  command.Keeps (fun m => m.EndsEvaluated) fun _ => True

/-- The sample commands end as evaluations do. -/
theorem HostCommand.endsEvaluated_of_mem_samples {command : HostCommand}
    (h : command ∈ samples) : command.EndsEvaluated :=
  keeps_of_mem_samples Eval.runCongruence_endsEvaluated h

section Host

variable {host : Host} (hhost : ∀ command ∈ host, command.EndsEvaluated)
include hhost

/-- An expression is evaluated as evaluations are. -/
theorem evaluate_endsEvaluated (depth : Nat) (node : Node) (scope : Scope) :
    (evaluate host depth node scope).EndsEvaluated :=
  Eval.runCongruence_endsEvaluated.evaluate hhost depth node trivial

/-- Statements are evaluated as evaluations are. -/
theorem evaluateAll_endsEvaluated (depth : Nat) (scope : Scope) (last : Value)
    (statements : List Node) : (evaluateAll host depth scope last statements).EndsEvaluated :=
  Eval.runCongruence_endsEvaluated.evaluateAll hhost depth trivial last statements

/-- A text is asked for as evaluations are. -/
theorem textWithin_endsEvaluated (depth : Nat) (value : Value) :
    (textWithin host depth value).EndsEvaluated :=
  Eval.runCongruence_endsEvaluated.textWithin hhost depth value

/-- An expression fails because the evaluation was cancelled, or with an evaluation fault that has a
place. -/
theorem evaluate_fault {depth : Nat} {node : Node} {scope : Scope} {env : Env} {s s' : State}
    {fault : Fault} (hs : s.heap.TasksEvaluated)
    (h : evaluate host depth node scope env s = .failed fault s') :
    fault = .cancelled ∨ ∃ cause place, fault = .evaluation cause (some place) := by
  cases depth with
  | zero => cases h
  | succ depth =>
    let e : Evaluator := .within host depth
    have hR := Eval.runCongruence_endsEvaluated
    have hends : (e.expression node scope).EndsEvaluated :=
      (hR.related hR.fitting (fun _ _ _ => trivial) hhost depth).expression hR
        (fun _ _ _ => trivial) rfl trivial
    have hend := hends env s hs
    change Eval.stamp node.position (e.expression node scope) env s = _ at h
    unfold Eval.stamp at h
    split at h
    · next inner s'' hfailed =>
      cases h
      rw [hfailed] at hend
      exact hend.1.position_stamp node.position
    · next hother => exact absurd h (hother _ _)

/-- Statements fail because the evaluation was cancelled, or with an evaluation fault that has a
place. -/
theorem evaluateAll_fault {depth : Nat} {scope : Scope} {last : Value} {statements : List Node}
    {env : Env} {s s' : State} {fault : Fault} (hs : s.heap.TasksEvaluated)
    (h : evaluateAll host depth scope last statements env s = .failed fault s') :
    fault = .cancelled ∨ ∃ cause place, fault = .evaluation cause (some place) := by
  induction statements generalizing last s with
  | nil => cases h
  | cons statement rest ih =>
    rcases Eval.bind_eq_failed_iff.mp h with hfailed | ⟨flow, s₁, hdone, hrest⟩
    · exact evaluate_fault hhost hs hfailed
    · have hs₁ := (evaluate_endsEvaluated hhost depth statement scope).state
        { env with held := .value last :: env.held } hs
      change evaluate host depth statement scope _ s = _ at hdone
      rw [hdone] at hs₁
      cases flow with
      | value value => exact ih hs₁ hrest
      | returned value => cases hrest
      | broken => cases hrest

end Host

end SoundLaw
