import SoundLaw.Proofs.Eval.Names
import SoundLaw.Proofs.Session.Fixed

/-!
# The name of all phones

In a session with phonology the name `all` is bound in the global frame to a fixed cell that holds
the phones of the table. Nothing changes a fixed cell, but the name is not fixed: a unit that
declares it in the global scope binds it to a new variable. Nothing else takes the name away. An
assignment to it comes to the fixed cell and fails, and parameters, loops over values, handlers,
blocks and bodies of structures declare names in frames of their own.
-/

namespace SoundLaw.Session

/-- The sessions that come about with a table when no command is registered and no unit declares a
name in the global scope. -/
inductive ReachedWithout (name : String) (table : Table) (phonology : Bool) : Session → Prop
  | start : ReachedWithout name table phonology (start table phonology)
  | run {session : Session} (h : ReachedWithout name table phonology session) (source : String)
    (hunit : ∀ statements, session.compile source = .ok statements →
      ∀ statement ∈ statements, statement.declares name = false) :
    ReachedWithout name table phonology (session.run source).2
  | render {session : Session} (h : ReachedWithout name table phonology session) (value : Value) :
    ReachedWithout name table phonology (session.render value).2
  | cancel {session : Session} (h : ReachedWithout name table phonology session) :
    ReachedWithout name table phonology session.cancel
  | takePrinted {session : Session} (h : ReachedWithout name table phonology session) :
    ReachedWithout name table phonology session.takePrinted.2

/-- An evaluation leaves the global scope the same. -/
theorem global_perform {α : Type} (session : Session) (m : Eval α) :
    (session.perform m).2.global = session.global := by
  unfold perform
  split <;> rfl

/-- A unit leaves the global scope the same. -/
theorem global_run (session : Session) (source : String) :
    (session.run source).2.global = session.global := by
  cases hcompile : session.compile source with
  | error fault => rw [run_of_compile_eq_error hcompile, settle]
  | ok statements =>
    rw [run_of_compile_eq_ok hcompile]
    exact global_perform session _

namespace ReachedWithout

variable {name : String} {table : Table} {phonology : Bool} {session : Session}

/-- These sessions are among those that come about with the table. -/
theorem reached (h : ReachedWithout name table phonology session) (Admits : HostCommand → Prop) :
    Reached Admits table phonology session := by
  induction h with
  | start => exact .start
  | run _ source _ ih => exact ih.run source
  | render _ value ih => exact ih.render value
  | cancel _ ih => exact ih.cancel
  | takePrinted _ ih => exact ih.takePrinted

/-- The host has registered no commands. -/
theorem host (h : ReachedWithout name table phonology session) : session.host = [] := by
  induction h with
  | start => rfl
  | run _ source _ ih => exact (host_run _ source).trans ih
  | render _ value ih => exact (host_perform _ _).trans ih
  | cancel _ ih => exact ih
  | takePrinted _ ih => exact ih

/-- The global scope stays the one that the session started with. -/
theorem global (h : ReachedWithout name table phonology session) :
    session.global = (Session.start table phonology).global := by
  induction h with
  | start => rfl
  | run _ source _ ih => exact (global_run _ source).trans ih
  | render _ value ih => exact (global_perform _ _).trans ih
  | cancel _ ih => exact ih
  | takePrinted _ ih => exact ih

/-- The name stays bound to its cell in the global frame. -/
theorem keepsCell (h : ReachedWithout name table phonology session) :
    Heap.KeepsCell (Session.start table phonology).global.frame name
      (Session.start table phonology).state.heap session.state.heap := by
  induction h with
  | start => exact fun _ hcell => hcell
  | @run session h source hunit ih =>
    cases hcompile : session.compile source with
    | error fault =>
      rw [run_of_compile_eq_error hcompile]
      exact ih
    | ok statements =>
      have hmoves : (evaluateAll session.host depth session.global .null statements).Moves
          (Heap.KeepsCell (Session.start table phonology).global.frame name) := by
        rw [h.host]
        exact evaluateAll_keepsCell
          (fun statement hmem => .inr (hunit _ hcompile statement hmem)) depth .null
      have hkeeps := hmoves ⟨session.table, [.scope session.global]⟩ session.state
      rw [← state_perform] at hkeeps
      rw [run_of_compile_eq_ok hcompile]
      exact fun cell hcell => hkeeps cell (ih cell hcell)
  | @render session h value ih =>
    have hkeeps := textWithin_keepsCell (Session.start table phonology).global.frame name depth
      value ⟨session.table, [.value value, .scope session.global]⟩ session.state
    rw [← h.host] at hkeeps
    rw [Session.render, state_perform]
    exact fun cell hcell => hkeeps cell (ih cell hcell)
  | cancel _ ih => exact ih
  | takePrinted _ ih => exact ih

end ReachedWithout

/-- Where no unit declares the name of all phones in the global scope, it still has the phones of
the table in the order in which they were registered, whatever the units do otherwise. Work that is
spawned is taken to run to its end inside the call that spawns it. -/
theorem get?_all_of_reachedWithout {table : Table} {session : Session}
    (h : ReachedWithout "all" table true session) :
    session.get? "all" = some (.vector (table.phones.map .phone)) := by
  obtain ⟨cell, hlookup, hfixed⟩ := exists_fixed_start table
  rw [Heap.lookup?_of_outer_eq_nil rfl] at hlookup
  have hcell := Heap.lookup?_of_localCell? (h.keepsCell cell hlookup)
  have hvalue := (h.reached HostCommand.KeepsFixed).keepsFixed cell _ hfixed
  rw [get?, h.global, Heap.get?, hcell, Option.map_some, Heap.read, hvalue]

/-- In `f(all) => all; f(null)` the name is the parameter of a function; the phones of a table
without any are still bound to it in the session. -/
theorem get?_all_of_reachedWithout_parameter :
    ((start .empty true).run "f(all) => all; f(null)").2.get? "all" = some (.vector []) := by
  have hcompile : (start .empty true).compile "f(all) => all; f(null)" = .ok
      [.assign ⟨1, 8⟩ .assign (.leaf ⟨1, 1⟩ (.declare "f"))
        (.lambda ⟨1, 8⟩ [⟨"all", .value⟩] (.leaf ⟨1, 11⟩ (.name "all"))),
      .call ⟨1, 17⟩ (.leaf ⟨1, 16⟩ (.name "f")) [.leaf ⟨1, 18⟩ .null]] := by
    with_unfolding_all rfl
  refine get?_all_of_reachedWithout (.run .start _ fun statements hstatements => ?_)
  rw [hcompile] at hstatements
  cases hstatements
  decide

/-- The name can be declared again: after `var all` it has null in the session. -/
theorem get?_all_redeclared :
    ¬ ∀ (table : Table) (sources : List String),
      (sources.foldl (fun session source => (session.run source).2) (start table true)).get? "all" =
        some (.vector (table.phones.map .phone)) := by
  intro h
  have hcompile : (start .empty true).compile "var all" =
      .ok [.leaf ⟨1, 1⟩ (.declare "all")] := by
    with_unfolding_all rfl
  have hnull : ((start .empty true).run "var all").2.get? "all" = some .null := by
    rw [run_of_compile_eq_ok hcompile]
    rfl
  have hphones := h .empty ["var all"]
  rw [List.foldl_cons, List.foldl_nil, hnull] at hphones
  cases hphones

end SoundLaw.Session
