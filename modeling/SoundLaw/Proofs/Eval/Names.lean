import SoundLaw.Proofs.Eval.Changes
import SoundLaw.Session

/-!
# Where names are declared

An expression declares names in the frame of its scope and in frames that come about while it is
evaluated: those of blocks, rounds of loops, handlers, calls and constructions. The frames that were
there before keep their names, also those that a function remembers and is called in. The exception
are instances: an assignment to a member that an instance lacks declares it there. So no name gets
out of a block, whose frame is always a new one.

In the frame of its scope an expression declares the names that it says it declares, and those that
it assigns to and that are bound nowhere. A name that is bound there stays bound to its cell unless
the expression declares it.
-/

namespace SoundLaw

namespace Heap

/-- How the names of a frame change in which no name is declared: not at all, except that members
which an instance lacks are declared with null in the frame of the instance, as an assignment to
them does. -/
inductive GainsMembers (frame : FrameId) (heap : Heap) : Heap → Prop
  | refl : GainsMembers frame heap heap
  | aside {between after : Heap} : GainsMembers frame heap between →
    after.bindings frame = between.bindings frame →
      (after.IsInstance frame → between.IsInstance frame) → GainsMembers frame heap after
  | member {between : Heap} {name : String} : GainsMembers frame heap between →
    between.IsInstance frame → between.localCell? frame name = none →
      GainsMembers frame heap (between.declare frame name .null).2

namespace GainsMembers

variable {frame : FrameId} {before between after : Heap}

/-- Further members behind the first ones. -/
theorem trans (hfirst : GainsMembers frame before between)
    (hsecond : GainsMembers frame between after) : GainsMembers frame before after := by
  induction hsecond with
  | refl => exact hfirst
  | aside _ hbindings hinstance ih => exact .aside ih hbindings hinstance
  | member _ hinstance hname ih => exact .member ih hinstance hname

/-- A frame that is not the frame of an instance keeps its names and does not become one. -/
theorem bindings_eq (h : GainsMembers frame before after) (hframe : ¬ before.IsInstance frame) :
    after.bindings frame = before.bindings frame ∧ ¬ after.IsInstance frame := by
  induction h with
  | refl => exact ⟨rfl, hframe⟩
  | aside _ hbindings hinstance ih => exact ⟨hbindings.trans ih.1, fun h => ih.2 (hinstance h)⟩
  | member _ hinstance _ ih => exact absurd hinstance ih.2

end GainsMembers

/-- A frame that is there stays there and gains members at most. -/
def KeepsNames (frame : FrameId) (before after : Heap) : Prop :=
  frame < before.frames.size → frame < after.frames.size ∧ GainsMembers frame before after

/-- A frame keeps its names unless some are bound in it. -/
theorem respects_keepsNames (frame : FrameId) :
    Respects (KeepsNames frame) (fun scope => scope.frame ≠ frame) where
  refl _ hframe := ⟨hframe, .refl⟩
  trans hfirst hsecond hframe := by
    obtain ⟨hbetween, hgains⟩ := hfirst hframe
    obtain ⟨hafter, hmore⟩ := hsecond hbetween
    exact ⟨hafter, hgains.trans hmore⟩
  aside _ haside hframe :=
    ⟨Nat.lt_of_lt_of_le hframe haside.size,
      .aside .refl (haside.bindings frame hframe) (haside.instances frame)⟩
  newChild heap _ := by
    by_cases hnew : heap.frames.size = frame
    · exact .inr fun _ hframe => absurd hframe (hnew ▸ Nat.lt_irrefl _)
    · exact .inl hnew
  bind hscope heap name cell hframe := by
    refine ⟨by rwa [size_frames_bind], .aside .refl ?_ id⟩
    rw [bindings_bind, if_neg fun h => hscope h.1.symm]
  newObject hscope heap name hooks isStatic hframe := by
    refine ⟨hframe, .aside .refl rfl fun hinstance => ?_⟩
    rcases isInstance_of_newStruct hinstance with hbefore | ⟨_, _, _, _, hobject, hnew⟩
    · exact hbefore
    · cases hobject
      exact absurd hnew hscope
  member {heap other name} hinstance hname hframe := by
    refine ⟨?_, ?_⟩
    · exact (size_frames_bind (heap.newCell ⟨.null, true⟩).2 other name _).symm ▸ hframe
    · by_cases hother : frame = other
      · subst hother
        exact .member .refl hinstance hname
      · refine .aside .refl ?_ id
        rw [bindings_declare, if_neg fun h => hother h.1]

end Heap

namespace Eval

/-- Fit for a scope in whose frame nothing may be declared is a block, which has a frame of its
own. -/
theorem fitting_keepsNames (frame : FrameId) :
    Evaluator.Fitting (fun m _ => m.Moves (Heap.KeepsNames frame))
      (fun scope node => scope.frame ≠ frame ∨ node.isBlock) where
  parts {scope node} hnode part hpart := by
    rcases hnode with hscope | hblock
    · exact .inl hscope
    · unfold Node.isBlock at hblock
      split at hblock
      · cases hpart
      · cases hblock
  declared {scope node} hnode name hname value := by
    rcases hnode with hscope | hblock
    · exact (runCongruence_moves (Heap.respects_keepsNames frame)).declare hscope name value
    · unfold Node.isBlock at hblock
      split at hblock
      · cases hname
      · cases hblock
  assigned {scope p name} hnode e creating := by
    rcases hnode with hscope | hblock
    · have hcongruence := runCongruence_moves (Heap.respects_keepsNames frame)
      exact hcongruence.assigned hscope p name e creating
    · cases hblock

end Eval

/-- A command of a host adds no name to a frame that was there before, except for members to frames
of instances, if what it asks the evaluator for does not do so in other scopes. -/
def HostCommand.KeepsNames (command : HostCommand) : Prop :=
  ∀ frame, command.Keeps (fun m => m.Moves (Heap.KeepsNames frame)) fun scope => scope.frame ≠ frame

/-- The sample commands add no names. -/
theorem HostCommand.keepsNames_of_mem_samples {command : HostCommand} (h : command ∈ samples) :
    command.KeepsNames :=
  fun frame => keeps_of_mem_samples (Eval.runCongruence_moves (Heap.respects_keepsNames frame)) h

/-- Names do not get out of the scopes that they are declared in, whatever commands a host has that
add none themselves. Whatever an expression does and however its evaluation ends, a frame that was
there before and is not the frame of its scope keeps its names, except that it may gain members if
it is the frame of an instance. For a block this holds of the frame of its scope as well. Work that
is spawned is taken to run to its end inside the call that spawns it. -/
theorem evaluate_keeps_names {host : Host} (hhost : ∀ command ∈ host, command.KeepsNames)
    (depth : Nat) (node : Node) (scope : Scope) (env : Env) (s : State) {frame : FrameId}
    (hframe : frame < s.heap.frames.size) (hscope : scope.frame ≠ frame ∨ node.isBlock) :
    let after := (evaluate host depth node scope env s).state.heap
    Heap.GainsMembers frame s.heap after ∧
      (¬ s.heap.IsInstance frame → after.bindings frame = s.heap.bindings frame) := by
  intro after
  have hmoves := (Eval.runCongruence_moves (Heap.respects_keepsNames frame)).evaluate_of_fit
    (Eval.fitting_keepsNames frame) (fun _ hopen _ => .inl hopen)
    (fun command hcommand => hhost command hcommand frame) depth hscope
  obtain ⟨-, hgains⟩ := hmoves env s hframe
  exact ⟨hgains, fun hinstance => (hgains.bindings_eq hinstance).1⟩

/-- The block `{ x = hostKey(null) }` calls a command of the host and declares its name in a frame
of its own: the global frame of the session keeps its names. -/
theorem evaluate_keeps_names_block :
    let session := (Session.start .empty true).register .key
    let env : Env := ⟨session.table, [.scope session.global]⟩
    let key : Node := .call ⟨1, 14⟩ (.leaf ⟨1, 7⟩ (.name "hostKey")) [.leaf ⟨1, 15⟩ .null]
    let assignment : Node := .assign ⟨1, 5⟩ .assign (.leaf ⟨1, 3⟩ (.name "x")) key
    ∃ s', evaluate session.host 5 (.sequence ⟨1, 1⟩ .block [assignment]) session.global env
        session.state = .done (.value (.vector [.text "null"])) s' ∧
      s'.heap.localCell? (session.global.frame + 1) "x" ≠ none ∧
      s'.heap.bindings session.global.frame = session.state.heap.bindings session.global.frame := by
  intro session env key assignment
  have hhost : ∀ command ∈ session.host, command.KeepsNames := by
    rintro command hcommand
    obtain rfl : command = .key := List.mem_singleton.mp hcommand
    exact HostCommand.keepsNames_of_mem_samples (by simp [HostCommand.samples])
  have hinstance : ¬ session.state.heap.IsInstance session.global.frame := by
    rintro ⟨id, _, _, _, _, hobject, -⟩
    cases hobject
  have hframe : session.global.frame < session.state.heap.frames.size := by decide
  obtain ⟨-, hkept⟩ := evaluate_keeps_names hhost 5 (.sequence ⟨1, 1⟩ .block [assignment])
    session.global env session.state hframe (.inr rfl)
  obtain ⟨s', hdone, hname⟩ : ∃ s', evaluate session.host 5
      (.sequence ⟨1, 1⟩ .block [assignment]) session.global env session.state =
        .done (.value (.vector [.text "null"])) s' ∧
      s'.heap.localCell? (session.global.frame + 1) "x" ≠ none :=
    ⟨_, rfl, by decide⟩
  rw [hdone] at hkept
  exact ⟨s', hdone, hname, hkept hinstance⟩

/-! ## Names that are not declared again -/

namespace Node

mutual

/-- Whether an expression declares a name in its own scope, by itself or in a part that is evaluated
there. What stands in blocks, functions, handlers, bodies of structures and bodies of loops over
values does not count. -/
def declares (name : String) : Node → Bool
  | leaf _ (.declare declared) | define _ declared _ _ => declared == name
  | leaf .. | sequence _ .block _ | lambda .. => false
  | sequence _ _ elements => anyDeclares name elements
  | call _ first others | create _ first others => first.declares name || anyDeclares name others
  | unary _ _ part | member _ part _ | attempt _ part | result _ part | raise _ part
  | iteration _ _ part _ | rescue _ part _ => part.declares name
  | binary _ _ left right | assign _ _ left right | index _ left right | branch _ left right
  | repetition _ left right => left.declares name || right.declares name
  | choice _ condition consequence alternative =>
    condition.declares name || consequence.declares name || alternative.declares name
  | rule _ _ search replacement left right =>
    search.declares name || replacement.declares name || left.declares name || right.declares name

/-- Whether one of several expressions declares a name in its own scope. -/
def anyDeclares (name : String) : List Node → Bool
  | [] => false
  | node :: rest => node.declares name || anyDeclares name rest

end

/-- One of several expressions declares a name. -/
theorem anyDeclares_iff {name : String} {nodes : List Node} :
    anyDeclares name nodes = true ↔ ∃ node ∈ nodes, node.declares name = true := by
  induction nodes with
  | nil => simp [anyDeclares]
  | cons node rest ih => simp [anyDeclares, ih]

/-- An expression declares a name if it says so itself or has a part in the same scope that does. -/
theorem declares_eq (name : String) (node : Node) :
    node.declares name = (node.declared? == some name || anyDeclares name node.partsHere) := by
  cases node with
  | leaf p operand => cases operand <;> simp [declares, declared?, partsHere, parts, anyDeclares]
  | sequence p form elements =>
    cases form <;> simp [declares, declared?, partsHere, parts, anyDeclares]
  | _ => simp [declares, declared?, partsHere, parts, anyDeclares, Bool.or_assoc]

end Node

namespace Heap

/-- A name stays bound to its cell in a frame. -/
def KeepsCell (frame : FrameId) (name : String) (before after : Heap) : Prop :=
  ∀ cell, before.localCell? frame name = some cell → after.localCell? frame name = some cell

/-- A declaration of another name, in another frame or where the name was not bound. -/
theorem keepsCell_declare {heap : Heap} {frame other : FrameId} {name declared : String}
    (h : other = frame → declared = name → heap.localCell? frame name = none) (value : Value) :
    KeepsCell frame name heap (heap.declare other declared value).2 := by
  intro cell hcell
  rw [localCell?, bindings_declare]
  split
  · next hother =>
    obtain ⟨rfl, -⟩ := hother
    rw [lookup_rebind]
    split
    · next hname =>
      rw [h rfl hname.symm] at hcell
      cases hcell
    · exact hcell
  · exact hcell

/-- A name stays bound to its cell in a frame unless names are bound in it. -/
theorem respects_keepsCell (frame : FrameId) (name : String) :
    Respects (KeepsCell frame name) (fun scope => scope.frame ≠ frame) where
  refl _ _ hcell := hcell
  trans hfirst hsecond cell hcell := hsecond cell (hfirst cell hcell)
  aside _ haside cell hcell := by
    rw [localCell?, haside.bindings frame (lt_size_of_localCell? hcell)]
    exact hcell
  newChild heap _ := by
    by_cases hnew : heap.frames.size = frame
    · exact .inr fun _ _ hcell => absurd (lt_size_of_localCell? hcell) (hnew ▸ Nat.lt_irrefl _)
    · exact .inl hnew
  bind hscope heap bound found cell hcell := by
    rw [localCell?, bindings_bind, if_neg fun h => hscope h.1.symm]
    exact hcell
  newObject _ _ _ _ _ _ hcell := hcell
  member _ hmissing := by
    refine keepsCell_declare ?_ .null
    rintro rfl rfl
    exact hmissing

end Heap

namespace Eval

/-- Fit for a scope in whose frame a name may not be declared again is what does not declare it. -/
theorem fitting_keepsCell (frame : FrameId) (name : String) :
    Evaluator.Fitting (fun m _ => m.Moves (Heap.KeepsCell frame name))
      (fun scope node => scope.frame ≠ frame ∨ node.declares name = false) where
  parts {scope node} hnode part hpart := by
    refine hnode.imp_right fun hnot => Bool.eq_false_iff.mpr fun hdeclares => ?_
    have hany := Node.anyDeclares_iff.mpr ⟨part, hpart, hdeclares⟩
    rw [Node.declares_eq, hany, Bool.or_true] at hnot
    cases hnot
  declared {scope node} hnode declared hdeclared value := by
    refine .modifyHeap fun heap => Heap.keepsCell_declare ?_ value
    rintro hframe rfl
    rcases hnode with hscope | hnot
    · exact absurd hframe hscope
    · rw [Node.declares_eq, hdeclared, beq_self_eq_true, Bool.true_or] at hnot
      cases hnot
  assigned {scope p assigned} _ e creating := by
    -- a name that is assigned to is declared only where it is not found
    intro env s
    have hlook : Eval.inspect (·.lookup? scope assigned) env s =
        .done (s.heap.lookup? scope assigned) s := rfl
    rw [Evaluator.placeOf, bind_of_done hlook]
    cases hfound : s.heap.lookup? scope assigned with
    | some cell => exact fun _ hcell => hcell
    | none =>
      cases creating with
      | false => exact fun _ hcell => hcell
      | true =>
        refine Heap.keepsCell_declare ?_ .null
        rintro rfl rfl
        cases hcell : s.heap.localCell? scope.frame assigned with
        | none => rfl
        | some cell =>
          rw [Heap.lookup?_of_localCell? hcell] at hfound
          cases hfound

end Eval

/-- Without commands of a host, statements leave a name bound to its cell in a frame, if they are
evaluated in another frame or do not declare the name. -/
theorem evaluateAll_keepsCell {scope : Scope} {frame : FrameId} {name : String}
    {statements : List Node}
    (h : ∀ statement ∈ statements, scope.frame ≠ frame ∨ statement.declares name = false)
    (depth : Nat) (last : Value) :
    (evaluateAll [] depth scope last statements).Moves (Heap.KeepsCell frame name) :=
  (Eval.runCongruence_moves (Heap.respects_keepsCell frame name)).evaluateAll_of_fit
    (Eval.fitting_keepsCell frame name) (fun _ hopen _ => .inl hopen)
    (fun _ hcommand => absurd hcommand List.not_mem_nil) depth last h

/-- Without commands of a host, asking for a text leaves all names bound to their cells. -/
theorem textWithin_keepsCell (frame : FrameId) (name : String) (depth : Nat) (value : Value) :
    (textWithin [] depth value).Moves (Heap.KeepsCell frame name) :=
  (Eval.runCongruence_moves (Heap.respects_keepsCell frame name)).textWithin
    (fun _ hcommand => absurd hcommand List.not_mem_nil) depth value

end SoundLaw
