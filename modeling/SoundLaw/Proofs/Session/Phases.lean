import SoundLaw.Proofs.Eval.Faults
import SoundLaw.Proofs.Node.Faults
import SoundLaw.Session

/-!
# The phases of a unit

A unit is compiled before any of it is evaluated, and the class of a fault tells in which of the two
phases it happened. So a unit that fails with a compilation fault has left nothing behind. This
relies on the commands of the host: one that failed with a compilation fault would make the unit
that calls it fail so.
-/

namespace SoundLaw

/-- A compilation fault has a place. -/
theorem Fault.isSome_position_of_compilation {fault : Fault}
    (h : fault.faultClass = .compilation) : fault.position?.isSome := by
  cases fault with
  | compilation cause place => rfl
  | _ => cases h

namespace Session

/-- The sessions that come about with a table: what a host does with a session is to run units, to
ask for texts, to register commands, to cancel and to take what was printed. The commands are those
that are admitted. -/
inductive Reached (Admits : HostCommand → Prop) (table : Table) (phonology : Bool) :
    Session → Prop
  | start : Reached Admits table phonology (start table phonology)
  | run {session : Session} (h : Reached Admits table phonology session) (source : String) :
    Reached Admits table phonology (session.run source).2
  | render {session : Session} (h : Reached Admits table phonology session) (value : Value) :
    Reached Admits table phonology (session.render value).2
  | register {session : Session} (h : Reached Admits table phonology session)
    {command : HostCommand} (hcommand : Admits command) :
    Reached Admits table phonology (session.register command)
  | cancel {session : Session} (h : Reached Admits table phonology session) :
    Reached Admits table phonology session.cancel
  | takePrinted {session : Session} (h : Reached Admits table phonology session) :
    Reached Admits table phonology session.takePrinted.2

/-- The state after an evaluation is the one in which it ended. -/
theorem state_perform {α : Type} (session : Session) (m : Eval α) :
    (session.perform m).2.state =
      (m ⟨session.table, [.scope session.global]⟩ session.state).state := by
  unfold perform
  split <;> next heq => rw [heq]; rfl

/-- An evaluation leaves the commands of the host the same. -/
theorem host_perform {α : Type} (session : Session) (m : Eval α) :
    (session.perform m).2.host = session.host := by
  unfold perform
  split <;> rfl

/-- An evaluation keeps the tasks of a session such as evaluations leave them. -/
theorem perform_tasksEvaluated {α : Type} {m : Eval α} (hm : m.EndsEvaluated)
    {session : Session} (h : session.state.heap.TasksEvaluated) :
    (session.perform m).2.state.heap.TasksEvaluated := by
  rw [state_perform]
  exact hm.state _ h

/-- A unit that compiles is evaluated. -/
theorem run_of_compile_eq_ok {session : Session} {source : String} {statements : List Node}
    (h : session.compile source = .ok statements) :
    session.run source =
      ((session.perform (evaluateAll session.host depth session.global .null statements)).1,
        (session.perform
          (evaluateAll session.host depth session.global .null statements)).2.settle) := by
  rw [run, h]

/-- A unit that does not compile is not evaluated. -/
theorem run_of_compile_eq_error {session : Session} {source : String} {fault : Fault}
    (h : session.compile source = .error fault) :
    session.run source = (.error (.fault fault), session.settle) := by
  rw [run, h]

/-- A unit leaves the commands of the host the same. -/
theorem host_run (session : Session) (source : String) :
    (session.run source).2.host = session.host := by
  cases hcompile : session.compile source with
  | error fault => rw [run_of_compile_eq_error hcompile, settle]
  | ok statements =>
    rw [run_of_compile_eq_ok hcompile]
    exact host_perform session _

namespace Reached

variable {Admits : HostCommand → Prop} {table : Table} {phonology : Bool} {session : Session}

/-- All commands that were registered are admitted. -/
theorem admits (h : Reached Admits table phonology session) :
    ∀ command ∈ session.host, Admits command := by
  induction h with
  | start => exact fun _ hcommand => absurd hcommand List.not_mem_nil
  | @run session h source ih =>
    rw [host_run]
    exact ih
  | @render session h value ih =>
    rw [Session.render, host_perform]
    exact ih
  | @register session h added hadded ih =>
    intro command hcommand
    rcases List.mem_append.mp hcommand with hcommand | hcommand
    · exact ih command hcommand
    · exact List.mem_singleton.mp hcommand ▸ hadded
  | cancel h ih => exact ih
  | takePrinted h ih => exact ih

/-- The tasks of every session came out as evaluations do, if the commands of the host do so. -/
theorem tasksEvaluated (h : Reached HostCommand.EndsEvaluated table phonology session) :
    session.state.heap.TasksEvaluated := by
  induction h with
  | start =>
    have hnone : (Session.start table phonology).state.heap.tasks = #[] := by
      cases phonology <;> rfl
    intro fault hmem
    rw [hnone] at hmem
    exact absurd hmem (Array.not_mem_empty _)
  | @run session h source ih =>
    cases hcompile : session.compile source with
    | error fault =>
      rw [run_of_compile_eq_error hcompile]
      exact ih
    | ok statements =>
      rw [run_of_compile_eq_ok hcompile]
      exact perform_tasksEvaluated (evaluateAll_endsEvaluated h.admits _ _ _ statements) ih
  | render h value ih =>
    exact perform_tasksEvaluated
      (fun _ s hs => textWithin_endsEvaluated h.admits _ value _ s hs) ih
  | register h hcommand ih => exact ih
  | cancel h ih => exact ih
  | takePrinted h ih => exact ih

end Reached

/-- A unit that fails with a compilation fault did not compile. -/
theorem compile_eq_error_of_run {session : Session} {source : String} {fault : Fault}
    (hhost : ∀ command ∈ session.host, command.EndsEvaluated)
    (h : session.state.heap.TasksEvaluated)
    (hrun : (session.run source).1 = .error (.fault fault))
    (hclass : fault.faultClass = .compilation) : session.compile source = .error fault := by
  cases hcompile : session.compile source with
  | error other =>
    rw [run_of_compile_eq_error hcompile] at hrun
    cases hrun
    rfl
  | ok statements =>
    rw [run_of_compile_eq_ok hcompile] at hrun
    unfold perform at hrun
    split at hrun
    · cases hrun
    · next hfailed =>
      cases hrun
      rcases evaluateAll_fault hhost h hfailed with rfl | ⟨cause, place, rfl⟩
      · cases hclass
      · cases hclass
    · cases hrun

/-- Faults are told apart by their phase. Cutting a text into tokens and building trees fail with
compilation faults that have a place. Evaluating statements fails because it was cancelled or with
an evaluation fault that has a place, provided that the commands of the host fail so only and that
the tasks that are waiting came out in the same way, as they did in every session that can be
reached with such commands. So a unit that fails with a compilation fault was not evaluated, and
apart from a request to stop, which is dropped, its session is as it was. Work that is spawned is
taken to run to its end inside the call that spawns it. -/
theorem faultClass_by_phase :
    (∀ dialect source fault, Token.tokenize dialect source = .error fault →
      fault.faultClass = .compilation ∧ fault.position?.isSome) ∧
    (∀ table tokens fault, Node.parse table tokens = .error fault →
      fault.faultClass = .compilation ∧ fault.position?.isSome) ∧
    (∀ (host : Host) depth scope last statements env s fault s',
      (∀ command ∈ host, command.EndsEvaluated) → s.heap.TasksEvaluated →
      evaluateAll host depth scope last statements env s = .failed fault s' →
      fault = .cancelled ∨ fault.faultClass = .evaluation ∧ fault.position?.isSome) ∧
    (∀ table phonology session, Reached HostCommand.EndsEvaluated table phonology session →
      (∀ command ∈ session.host, command.EndsEvaluated) ∧ session.state.heap.TasksEvaluated) ∧
    ∀ (session : Session) source fault, (∀ command ∈ session.host, command.EndsEvaluated) →
      session.state.heap.TasksEvaluated → (session.run source).1 = .error (.fault fault) →
      fault.faultClass = .compilation →
      session.compile source = .error fault ∧ (session.run source).2 = session.settle := by
  refine ⟨?_, ?_, ?_, fun _ _ _ h => ⟨h.admits, h.tasksEvaluated⟩, ?_⟩
  · intro dialect source fault h
    have hclass := Token.failsWith_tokenize dialect source fault h
    exact ⟨hclass, Fault.isSome_position_of_compilation hclass⟩
  · intro table tokens fault h
    have hclass := Node.failsWith_parse table tokens fault h
    exact ⟨hclass, Fault.isSome_position_of_compilation hclass⟩
  · intro host depth scope last statements env s fault s' hhost hs h
    rcases evaluateAll_fault hhost hs h with rfl | ⟨cause, place, rfl⟩
    · exact Or.inl rfl
    · exact Or.inr ⟨rfl, rfl⟩
  · intro session source fault hhost hs hrun hclass
    have hcompile := compile_eq_error_of_run hhost hs hrun hclass
    exact ⟨hcompile, congrArg Prod.snd (run_of_compile_eq_error hcompile)⟩

/-- In a session with a command that doubles numbers, calling it with null is an evaluation fault
with a place, and a closing bracket by itself is a compilation fault with a place, after which the
session is as it was. -/
theorem faultClass_by_phase_twice :
    let session := (start (.ofBases ⟨[], .empty, []⟩) false).register .twice
    let node : Node := .call ⟨1, 10⟩ (.leaf ⟨1, 1⟩ (.name "hostTwice")) [.leaf ⟨1, 11⟩ .null]
    (∃ fault s', evaluateAll session.host 3 session.global .null [node] ⟨session.table, []⟩
        session.state = .failed fault s' ∧
      (fault = .cancelled ∨ fault.faultClass = .evaluation ∧ fault.position?.isSome)) ∧
    (∃ fault, Node.parse session.table [⟨.closing .round, .start⟩] = .error fault ∧
      fault.faultClass = .compilation ∧ fault.position?.isSome) ∧
    ∃ fault, (session.run ")").1 = .error (.fault fault) ∧
      (session.run ")").2 = session.settle := by
  intro session node
  obtain ⟨-, hparse, hevaluate, hreached, hrun⟩ := faultClass_by_phase
  have htwice : HostCommand.twice.EndsEvaluated :=
    HostCommand.endsEvaluated_of_mem_samples List.mem_cons_self
  have hsession : Reached HostCommand.EndsEvaluated (.ofBases ⟨[], .empty, []⟩) false session :=
    .register .start htwice
  obtain ⟨hhost, htasks⟩ := hreached _ _ _ hsession
  obtain ⟨fault, s', hfault⟩ : ∃ fault s', evaluateAll session.host 3 session.global .null [node]
      ⟨session.table, []⟩ session.state = .failed fault s' :=
    ⟨_, _, rfl⟩
  obtain ⟨other, hother⟩ : ∃ other,
      Node.parse session.table [⟨.closing .round, .start⟩] = .error other := ⟨_, rfl⟩
  obtain ⟨last, hlast, hclass⟩ : ∃ fault, (session.run ")").1 = .error (.fault fault) ∧
      fault.faultClass = .compilation :=
    ⟨.compilation (.unmatchedBracket ')') ⟨1, 1⟩, by with_unfolding_all rfl, rfl⟩
  exact ⟨⟨fault, s', hfault, hevaluate _ _ _ _ _ _ _ _ _ hhost htasks hfault⟩,
    ⟨other, hother, hparse _ _ _ hother⟩,
    ⟨last, hlast, (hrun session ")" last hhost htasks hlast hclass).2⟩⟩

end Session

end SoundLaw
