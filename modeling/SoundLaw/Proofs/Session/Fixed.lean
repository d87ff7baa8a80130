import SoundLaw.Proofs.Eval.Changes
import SoundLaw.Proofs.Eval.Operands
import SoundLaw.Proofs.Heap.Storage
import SoundLaw.Proofs.Session.Phases

/-!
# Variables that never change

A fixed parameter and the name of all phones are bound to cells that may not change. Nothing that is
evaluated changes the value of such a cell, whatever it does and however it ends, because the only
change of the heap that writes to a cell asks first whether the cell may change. Commands of a host
have to ask in the same way. An assignment that comes to such a cell fails, however many indices its
place has below the cell: the question is asked before the path is walked.
-/

namespace SoundLaw

open Eval

namespace Heap

/-- A cell has a value and may not change. -/
def Fixed (heap : Heap) (cell : CellId) (value : Value) : Prop :=
  heap.cells[cell]? = some ⟨value, false⟩

/-- A fixed cell may not change. -/
theorem Fixed.isMutable {heap : Heap} {cell : CellId} {value : Value}
    (h : heap.Fixed cell value) : heap.isMutable cell = false := by
  rw [Heap.isMutable, h]

/-- A cell that is added fixed is fixed. -/
theorem fixed_newCell (heap : Heap) (value : Value) :
    (heap.newCell ⟨value, false⟩).2.Fixed (heap.newCell ⟨value, false⟩).1 value :=
  Array.getElem?_push_size

/-- No change of the heap changes a fixed cell. -/
theorem Change.fixed {before after : Heap} (h : Change before after) {cell : CellId}
    {value : Value} (hcell : before.Fixed cell value) : after.Fixed cell value := by
  cases h with
  | newCell added =>
    have hsize : cell < before.cells.size := (Array.getElem?_eq_some_iff.mp hcell).1
    change (before.cells.push added)[cell]? = _
    rw [Array.getElem?_push, if_neg (Nat.ne_of_lt hsize)]
    exact hcell
  | @put written hmutable replaced =>
    have hother : written ≠ cell := by
      rintro rfl
      rw [hcell.isMutable] at hmutable
      exact Bool.false_ne_true hmutable
    change (before.cells.modify written _)[cell]? = _
    rw [Array.getElem?_modify, if_neg hother]
    exact hcell
  | newFrame | newStruct | newTask | newIdentity | bind | setOwner | fetch => exact hcell

/-- All fixed cells stay fixed and have the same values. -/
def KeepsFixed (before after : Heap) : Prop :=
  ∀ cell value, before.Fixed cell value → after.Fixed cell value

/-- Whatever a run does to the heap keeps the fixed cells. -/
theorem respects_keepsFixed : Respects KeepsFixed (fun _ => True) where
  refl _ _ _ hcell := hcell
  trans hfirst hsecond cell value hcell := hsecond cell value (hfirst cell value hcell)
  aside hchange _ _ _ hcell := hchange.fixed hcell
  newChild _ _ := .inl trivial
  bind {scope} _ heap name cell _ _ hcell := (Change.bind heap scope.frame name cell).fixed hcell
  newObject {scope} _ heap name hooks isStatic _ _ hcell :=
    (Change.newStruct heap (.object name scope hooks isStatic)).fixed hcell
  member {heap frame name} _ _ _ _ hcell :=
    (Change.bind (heap.newCell ⟨.null, true⟩).2 frame name heap.cells.size).fixed
      ((Change.newCell heap ⟨.null, true⟩).fixed hcell)

end Heap

/-- That fixed cells are kept is handed on from parts to the whole. -/
theorem Eval.runCongruence_keepsFixed :
    RunCongruence (fun m _ => m.Moves Heap.KeepsFixed) (fun _ => True) :=
  runCongruence_moves Heap.respects_keepsFixed

/-- A command of a host leaves fixed cells alone, if what it asks the evaluator for does so. -/
def HostCommand.KeepsFixed (command : HostCommand) : Prop :=
  command.Keeps (fun m => m.Moves Heap.KeepsFixed) fun _ => True

/-- The sample commands leave fixed cells alone. -/
theorem HostCommand.keepsFixed_of_mem_samples {command : HostCommand} (h : command ∈ samples) :
    command.KeepsFixed :=
  keeps_of_mem_samples Eval.runCongruence_keepsFixed h

/-! ## Fixed parameters -/

namespace Evaluator

/-- A parameter is bound to a cell, and the others come behind it. The cell of a fixed parameter is
fixed. -/
theorem bindParameters_cons (scope : Scope) (parameter : Parameter) (rest : List Parameter)
    (arguments : List Argument) (env : Env) (s : State) :
    ∃ (heap : Heap) (cell : CellId), heap.frames = s.heap.frames ∧
      (parameter.mode = .fixed → heap.Fixed cell (arguments.headD (.ofValue .null)).value) ∧
      bindParameters scope (parameter :: rest) arguments env s =
        bindParameters scope rest arguments.tail env
          { s with heap := heap.bind scope.frame parameter.name cell } := by
  obtain ⟨name, mode⟩ := parameter
  let argument := arguments.headD (.ofValue .null)
  let added := s.heap.newCell ⟨argument.value, mode != .fixed⟩
  cases mode with
  | value => exact ⟨added.2, added.1, rfl, nofun, rfl⟩
  | fixed => exact ⟨added.2, added.1, rfl, fun _ => s.heap.fixed_newCell argument.value, rfl⟩
  | reference =>
    cases hcell : argument.cell with
    | some cell =>
      rw [bindParameters, hcell]
      exact ⟨s.heap, cell, rfl, nofun, rfl⟩
    | none =>
      rw [bindParameters, hcell]
      exact ⟨added.2, added.1, rfl, nofun, rfl⟩

/-- Binding parameters ends, and names that no parameter has are bound as before. -/
theorem bindParameters_done (scope : Scope) (parameters : List Parameter)
    (arguments : List Argument) (env : Env) (s : State) :
    ∃ s', bindParameters scope parameters arguments env s = .done () s' ∧
      (scope.frame < s.heap.frames.size → ∀ name,
        (∀ parameter ∈ parameters, parameter.name ≠ name) →
          s'.heap.localCell? scope.frame name = s.heap.localCell? scope.frame name) := by
  induction parameters generalizing arguments s with
  | nil => exact ⟨s, rfl, fun _ _ _ => rfl⟩
  | cons parameter rest ih =>
    obtain ⟨heap, cell, hframes, -, hcons⟩ :=
      bindParameters_cons scope parameter rest arguments env s
    obtain ⟨s', hdone, hkept⟩ := ih arguments.tail
      { s with heap := heap.bind scope.frame parameter.name cell }
    refine ⟨s', hcons.trans hdone, fun hframe name hnames => ?_⟩
    rw [List.forall_mem_cons] at hnames
    rw [← hframes] at hframe
    have hbound : scope.frame < (heap.bind scope.frame parameter.name cell).frames.size := by
      rwa [Heap.size_frames_bind]
    rw [hkept hbound name hnames.2, Heap.localCell?_bind hframe, if_neg hnames.1.symm,
      Heap.localCell?, Heap.bindings, hframes]
    rfl

/-- A fixed parameter is bound to a fixed cell with the value of its argument, or with null if the
argument is missing. -/
theorem bindParameters_fixed {scope : Scope} {name : String} {after : List Parameter} {s : State}
    (hframe : scope.frame < s.heap.frames.size)
    (hlast : ∀ parameter ∈ after, parameter.name ≠ name) (before : List Parameter)
    (arguments : List Argument) (env : Env) :
    ∃ s' cell, bindParameters scope (before ++ ⟨name, .fixed⟩ :: after) arguments env s =
        .done () s' ∧
      s'.heap.localCell? scope.frame name = some cell ∧
      s'.heap.Fixed cell (arguments[before.length]?.getD (.ofValue .null)).value := by
  induction before generalizing arguments s with
  | nil =>
    obtain ⟨heap, cell, hframes, hfixed, hcons⟩ :=
      bindParameters_cons scope ⟨name, .fixed⟩ after arguments env s
    let bound : State := { s with heap := heap.bind scope.frame name cell }
    obtain ⟨s', hdone, hkept⟩ := bindParameters_done scope after arguments.tail env bound
    have hkeeps : (bindParameters scope after arguments.tail).Moves Heap.KeepsFixed :=
      Related.bindParameters runCongruence_keepsFixed trivial after arguments.tail
    have hlater := hkeeps env bound
    rw [hdone] at hlater
    rw [← hframes] at hframe
    have hbound : scope.frame < (heap.bind scope.frame name cell).frames.size := by
      rwa [Heap.size_frames_bind]
    refine ⟨s', cell, hcons.trans hdone, ?_, ?_⟩
    · rw [hkept hbound name hlast, Heap.localCell?_bind hframe, if_pos rfl]
    · have hcell : heap.Fixed cell (arguments.headD (.ofValue .null)).value := hfixed rfl
      rw [List.headD_eq_head?_getD, List.head?_eq_getElem?] at hcell
      exact hlater _ _ ((Heap.Change.bind heap scope.frame name cell).fixed hcell)
  | cons parameter before ih =>
    obtain ⟨heap, cell, hframes, -, hcons⟩ := bindParameters_cons scope parameter
      (before ++ ⟨name, .fixed⟩ :: after) arguments env s
    rw [← hframes] at hframe
    have hbound : scope.frame < (heap.bind scope.frame parameter.name cell).frames.size := by
      rwa [Heap.size_frames_bind]
    obtain ⟨s', found, hdone, hfound, hfixed⟩ :=
      @ih { s with heap := heap.bind scope.frame parameter.name cell } hbound arguments.tail
    rw [List.getElem?_tail] at hfixed
    exact ⟨s', found, hcons.trans hdone, hfound, hfixed⟩

/-! ## Assignments -/

/-- A member of what names a kind of values has no place. -/
theorem placeOf_member_ne_done {e : Evaluator} (he : e.ReadsOperands) {scope : Scope}
    {object : Node} {kind : Kind} {env : Env} {s : State}
    (hkind : typeName? object scope env s = .done (some kind) s) (p : Position) (name : String)
    (creating : Bool) (place : Place) (s' : State) :
    e.placeOf scope creating (.member p object name) env s ≠ .done place s' := by
  intro hplace
  obtain ⟨flow, s₁, hflow, hmember⟩ := bind_eq_done_iff.mp hplace
  obtain ⟨cell, s₂, hcell, -⟩ := bind_eq_done_iff.mp hmember
  obtain ⟨text, htext⟩ := exists_text_of_typeName? he hkind hflow
  rw [htext] at hcell
  cases hcell

/-- A write to a place in a fixed cell fails. -/
theorem writeTo_fixed {e : Evaluator} {operator : Operator} {target : Node} {scope : Scope}
    {assigned value : Value} {place : Place} {env : Env} {s s' : State}
    (hplace : e.placeOf scope (operator == .assign) target env s = .done place s')
    (hfixed : s'.heap.Fixed place.cell value) :
    e.writeTo operator target assigned scope env s = .failed (.raised .immutable) s' := by
  rw [writeTo, bind_of_done hplace, bind_eq_failed_iff]
  refine Or.inl ?_
  rw [updateCell]
  change (if s'.heap.isMutable place.cell = true then _ else _ : Eval Value) env s' = _
  rw [hfixed.isMutable]
  rfl

/-- An assignment whose place is in a fixed cell fails. -/
theorem assign_fixed {e : Evaluator} (he : e.ReadsOperands) {operator : Operator}
    {target node : Node} {scope : Scope} {assigned value : Value} {place : Place} {env : Env}
    {s s₁ s₂ : State} (hassigned : e.evaluate node scope env s = .done (.value assigned) s₁)
    (hplace : e.placeOf scope (operator == .assign) target
      { env with held := .value assigned :: env.held } s₁ = .done place s₂)
    (hfixed : s₂.heap.Fixed place.cell value) :
    e.assign operator target node scope env s = .failed (.raised .immutable) s₂ := by
  rw [assign, holdThen, andThen, bind_of_done hassigned]
  have hwrite : e.writeTo operator target assigned scope
      { env with held := .value assigned :: env.held } s₁ = .failed (.raised .immutable) s₂ :=
    writeTo_fixed hplace hfixed
  dsimp only [holding]
  split
  · next p object name =>
    obtain ⟨kind?, hkind⟩ := typeName?_done object scope
      { env with held := .value assigned :: env.held } s₁
    rw [bind_of_done hkind]
    cases kind? with
    | some kind => exact absurd hplace (placeOf_member_ne_done he hkind p name _ place s₂)
    | none => exact hwrite
  · exact hwrite

end Evaluator

/-- The evaluation of an assignment whose place is in a fixed cell fails. -/
theorem evaluate_assign_fixed {host : Host} {depth : Nat} {operator : Operator}
    {target node : Node} {scope : Scope} {assigned value : Value} {place : Place} {env : Env}
    {s s₁ s₂ : State}
    (hassigned : evaluate host depth node scope env s = .done (.value assigned) s₁)
    (hplace : (Evaluator.within host depth).placeOf scope (operator == .assign) target
      { env with held := .value assigned :: env.held } s₁ = .done place s₂)
    (hfixed : s₂.heap.Fixed place.cell value) (p : Position) :
    evaluate host (depth + 1) (.assign p operator target node) scope env s =
      .failed (.evaluation .immutable (some p)) s₂ := by
  let e : Evaluator := .within host depth
  have he : e.ReadsOperands := fun node hnode scope env s =>
    evaluate_operand host depth hnode scope env s
  have hfailed := Evaluator.assign_fixed he hassigned hplace hfixed
  change Eval.stamp p (e.assign operator target node scope) env s = _
  rw [Eval.stamp, hfailed]
  rfl

/-- Evaluating keeps fixed cells if the commands of the host do. -/
theorem evaluate_keepsFixed {host : Host} (hhost : ∀ command ∈ host, command.KeepsFixed)
    (depth : Nat) (node : Node) (scope : Scope) :
    (evaluate host depth node scope).Moves Heap.KeepsFixed :=
  Eval.runCongruence_keepsFixed.evaluate hhost depth node trivial

/-! ## Sessions -/

namespace Session

/-- Whatever is done with a session, its fixed cells stay the same. -/
theorem Reached.keepsFixed {table : Table} {phonology : Bool} {session : Session}
    (h : Reached HostCommand.KeepsFixed table phonology session) :
    Heap.KeepsFixed (Session.start table phonology).state.heap session.state.heap := by
  have hR := Eval.runCongruence_keepsFixed
  induction h with
  | start => exact fun _ _ hcell => hcell
  | @run session h source ih =>
    cases hcompile : session.compile source with
    | error fault =>
      rw [run_of_compile_eq_error hcompile]
      exact ih
    | ok statements =>
      rw [run_of_compile_eq_ok hcompile]
      have hmoves : (evaluateAll session.host depth session.global .null statements).Moves
          Heap.KeepsFixed := hR.evaluateAll h.admits depth trivial .null statements
      have hrun := hmoves ⟨session.table, [.scope session.global]⟩ session.state
      rw [← state_perform] at hrun
      exact Heap.respects_keepsFixed.trans ih hrun
  | @render session h value ih =>
    have htext := hR.textWithin h.admits depth value
      ⟨session.table, [.value value, .scope session.global]⟩ session.state
    rw [Session.render, state_perform]
    exact Heap.respects_keepsFixed.trans ih htext
  | @register session h command hcommand ih =>
    have hglobal : (fun _ => True : Scope → Prop) session.global := trivial
    exact Heap.respects_keepsFixed.trans ih
      (Heap.respects_keepsFixed.declareCell hglobal _ command.name _)
  | cancel h ih => exact ih
  | takePrinted h ih => exact ih

/-- In a new session with phonology all phones are bound to a name in a fixed cell. -/
theorem exists_fixed_start (table : Table) :
    ∃ cell, (Session.start table true).state.heap.lookup? (Session.start table true).global
        "all" = some cell ∧
      (Session.start table true).state.heap.Fixed cell (.vector (table.phones.map .phone)) :=
  ⟨Command.all.length, rfl, rfl⟩

end Session

/-- Variables that were made fixed never change, whatever commands a host has that leave them alone
as well. No evaluation changes the value of a fixed cell, whatever it does and however it ends, and
an assignment or compound assignment whose place is in a fixed cell fails because the variable
cannot be assigned to, whatever the path below the cell is. The name of all phones is bound to a
fixed cell, which has kept its value in every session that is reached with such commands, and a call
binds a fixed parameter to a fixed cell. Work that is spawned is taken to run to its end inside the
call that spawns it. -/
theorem fixed_never_changes :
    (∀ (host : Host) depth node scope env (s : State) cell value,
      (∀ command ∈ host, command.KeepsFixed) → s.heap.Fixed cell value →
      (evaluate host depth node scope env s).state.heap.Fixed cell value) ∧
    (∀ (host : Host) depth p operator target node scope (env : Env) s s₁ (s₂ : State) assigned
        place value,
      evaluate host depth node scope env s = .done (.value assigned) s₁ →
      (Evaluator.within host depth).placeOf scope (operator == .assign) target
        { env with held := .value assigned :: env.held } s₁ = .done place s₂ →
      s₂.heap.Fixed place.cell value →
      evaluate host (depth + 1) (.assign p operator target node) scope env s =
        .failed (.evaluation .immutable (some p)) s₂) ∧
    (∀ table, ∃ cell,
      (Session.start table true).state.heap.lookup? (Session.start table true).global "all" =
        some cell ∧
      ∀ session, Session.Reached HostCommand.KeepsFixed table true session →
        session.state.heap.Fixed cell (.vector (table.phones.map .phone))) ∧
    ∀ (scope : Scope) before name after arguments env (s : State),
      scope.frame < s.heap.frames.size → (∀ parameter ∈ after, parameter.name ≠ name) →
      ∃ s' cell,
        Evaluator.bindParameters scope (before ++ ⟨name, .fixed⟩ :: after) arguments env s =
          .done () s' ∧
        s'.heap.localCell? scope.frame name = some cell ∧
        s'.heap.Fixed cell (arguments[before.length]?.getD (.ofValue .null)).value := by
  refine ⟨?_, ?_, fun table => ?_, ?_⟩
  · intro host depth node scope env s cell value hhost hcell
    exact evaluate_keepsFixed hhost depth node scope env s cell value hcell
  · intro host depth p _ _ _ _ _ _ _ _ _ _ _ hassigned hplace hfixed
    exact evaluate_assign_fixed hassigned hplace hfixed p
  · obtain ⟨cell, hcell, hfixed⟩ := Session.exists_fixed_start table
    exact ⟨cell, hcell, fun session hreached => hreached.keepsFixed cell _ hfixed⟩
  · intro scope before name after arguments env s hframe hlast
    exact Evaluator.bindParameters_fixed hframe hlast before arguments env

/-- In a session with a command that calls functions, `all[null] += true` fails and leaves all
phones as they are, and so does `hostCall(() => all[null] += true)`. A call binds the parameter of
`(final x) => x` to a fixed cell. -/
theorem fixed_never_changes_all :
    let session := (Session.start .empty true).register .call
    let env : Env := ⟨session.table, [.scope session.global]⟩
    let target : Node := .index ⟨1, 19⟩ (.leaf ⟨1, 16⟩ (.name "all")) (.leaf ⟨1, 20⟩ .null)
    let node : Node := .assign ⟨1, 26⟩ .addAssign target (.leaf ⟨1, 29⟩ (.bool true))
    let call : Node := .call ⟨1, 9⟩ (.leaf ⟨1, 1⟩ (.name "hostCall")) [.lambda ⟨1, 13⟩ [] node]
    (∃ cell, session.state.heap.lookup? session.global "all" = some cell ∧
      (∃ s', evaluate session.host 2 node session.global env session.state =
        .failed (.evaluation .immutable (some ⟨1, 26⟩)) s' ∧ s'.heap.Fixed cell (.vector [])) ∧
      ∃ s', evaluate session.host 6 call session.global env session.state =
        .failed (.evaluation .immutable (some ⟨1, 26⟩)) s' ∧ s'.heap.Fixed cell (.vector [])) ∧
    ∃ s' cell, Evaluator.bindParameters session.global [⟨"x", .fixed⟩] [.ofValue (.bool true)] env
        session.state = .done () s' ∧
      s'.heap.localCell? session.global.frame "x" = some cell ∧
      s'.heap.Fixed cell (.bool true) := by
  intro session env target node call
  obtain ⟨hkept, hassign, hall, hparameter⟩ := fixed_never_changes
  obtain ⟨cell, hlookup, hreached⟩ := hall .empty
  obtain rfl : Command.all.length = cell := Option.some.inj hlookup
  have hcall : HostCommand.call.KeepsFixed :=
    HostCommand.keepsFixed_of_mem_samples (by simp [HostCommand.samples])
  have hsession : Session.Reached HostCommand.KeepsFixed .empty true session :=
    .register .start hcall
  have hfixed := hreached session hsession
  have hassigned : evaluate session.host 1 (.leaf ⟨1, 29⟩ (.bool true)) session.global env
      session.state = .done (.value (.bool true)) session.state := rfl
  have hplace : (Evaluator.within session.host 1).placeOf session.global false target
      { env with held := .value (.bool true) :: env.held } session.state =
        .done ⟨Command.all.length, [⟨.null, "null"⟩]⟩ session.state := by
    with_unfolding_all rfl
  have hfailed := hassign session.host 1 ⟨1, 26⟩ .addAssign _ _ _ _ _ _ _ _ _ _ hassigned hplace
    hfixed
  obtain ⟨s', hcalled⟩ : ∃ s', evaluate session.host 6 call session.global env session.state =
      .failed (.evaluation .immutable (some ⟨1, 26⟩)) s' :=
    ⟨_, by with_unfolding_all rfl⟩
  have hafter := hkept session.host 6 call session.global env session.state _ _ hsession.admits
    hfixed
  rw [hcalled] at hafter
  refine ⟨⟨_, rfl, ⟨session.state, hfailed, hfixed⟩, ⟨s', hcalled, hafter⟩⟩, ?_⟩
  exact hparameter session.global [] "x" [] [.ofValue (.bool true)] env session.state (by decide)
    fun _ hmem => absurd hmem List.not_mem_nil

end SoundLaw
