import SoundLaw.Proofs.Eval.Operands
import SoundLaw.Proofs.Eval.Text
import SoundLaw.Proofs.Heap.Storage
import SoundLaw.Session

/-!
# What a failed assignment leaves behind

An assignment that fails is not undone. What it may leave behind is little: the member that it is
about, declared with null because the instance lacks it, or one key that a dictionary on the path
lacks, entered with null. The walk cannot enter a second key, because below a key that has just
been entered there is nothing to walk into.

This is about targets and values whose evaluation itself changes nothing: variables, members of
variables, and indices that are literals or variables, none of which calls a method for its key.
-/

namespace SoundLaw

open Eval

variable {host : Host}

namespace Value

/-- Writing the value that a key has changes nothing. -/
theorem replaceEntry_self {key : String} {value : Value} {entries : List (String × Value)}
    (h : entry? key entries = some value) : replaceEntry key value entries = entries := by
  induction entries with
  | nil => rfl
  | cons entry rest ih =>
    obtain ⟨found, current⟩ := entry
    rw [Value.entry?, List.lookup_cons] at h
    rw [replaceEntry]
    by_cases hkey : key = found
    · subst hkey
      rw [if_pos rfl]
      rw [beq_self_eq_true] at h
      cases h
      rfl
    · rw [if_neg hkey]
      rw [beq_eq_false_iff_ne.mpr hkey] at h
      rw [ih h]

/-- Entering the value that a key has changes nothing. -/
theorem insertEntry_self {key : String} {value : Value} {entries : List (String × Value)}
    (h : entry? key entries = some value) : insertEntry key value entries = entries := by
  rw [insertEntry, h]
  exact replaceEntry_self h

/-- One dictionary on a path lacks the key of the path, and it is entered with null. -/
inductive Enters : List Step → Value → Value → Prop
  | here {step : Step} {rest : List Step} {entries : List (String × Value)} :
    entry? step.key entries = none →
      Enters (step :: rest) (dictionary entries) (dictionary (insertEntry step.key null entries))
  | entry {step : Step} {rest : List Step} {entries : List (String × Value)}
    {value value' : Value} : entry? step.key entries = some value → Enters rest value value' →
      Enters (step :: rest) (dictionary entries)
        (dictionary (insertEntry step.key value' entries))
  | element {step : Step} {rest : List Step} {elements : List Value} {i : Nat}
    {value value' : Value} : step.index.asIndex elements.length = .ok i →
      elements[i]? = some value → Enters rest value value' →
        Enters (step :: rest) (vector elements) (vector (elements.set i value'))

/-- A failed walk below null leaves null. -/
theorem updateAt_null {update : Value → Except Fault Value} {path : List Step} {fault : Fault}
    {value : Value} (h : updateAt update path null = (.error fault, value)) : value = null := by
  cases path with
  | nil =>
    rw [updateAt] at h
    split at h
    · cases h
    · cases h
      rfl
  | cons step rest =>
    cases h
    rfl

/-- A failed walk leaves a value as it is, or with one missing key entered. -/
theorem updateAt_failed {update : Value → Except Fault Value} {path : List Step} {fault : Fault}
    {value value' : Value} (h : updateAt update path value = (.error fault, value')) :
    value' = value ∨ Enters path value value' := by
  induction path generalizing value value' with
  | nil =>
    rw [updateAt] at h
    split at h
    · cases h
    · cases h
      exact Or.inl rfl
  | cons step rest ih =>
    cases value with
    | vector elements =>
      rw [updateAt] at h
      split at h
      · cases h
        exact Or.inl rfl
      · next i hindex =>
        generalize hwalk : updateAt update rest ((elements[i]?).getD null) = walked at h
        obtain ⟨outcome, element⟩ := walked
        cases h
        cases hfound : elements[i]? with
        | none =>
          have hlength : elements.length ≤ i := List.getElem?_eq_none_iff.mp hfound
          rw [List.set_eq_of_length_le hlength]
          exact Or.inl rfl
        | some found =>
          rw [hfound, Option.getD_some] at hwalk
          rcases ih hwalk with rfl | henters
          · obtain ⟨hi, rfl⟩ := List.getElem?_eq_some_iff.mp hfound
            rw [List.set_getElem_self]
            exact Or.inl rfl
          · exact Or.inr (Enters.element hindex hfound henters)
    | dictionary entries =>
      rw [updateAt] at h
      generalize hwalk :
        updateAt update rest ((Value.entry? step.key entries).getD null) = walked at h
      obtain ⟨outcome, entered⟩ := walked
      cases h
      cases hfound : entry? step.key entries with
      | none =>
        rw [hfound, Option.getD_none] at hwalk
        cases updateAt_null hwalk
        exact Or.inr (Enters.here hfound)
      | some found =>
        rw [hfound, Option.getD_some] at hwalk
        rcases ih hwalk with rfl | henters
        · rw [insertEntry_self hfound]
          exact Or.inl rfl
        · exact Or.inr (Enters.entry hfound henters)
    | _ =>
      cases h
      exact Or.inl rfl

end Value

namespace Node

/-- Whether an expression is a variable, a member of a variable, or below one of these at indices
that are literals or variables. -/
def isPath : Node → Bool
  | leaf _ (.name _) => true
  | member _ (leaf _ (.name _)) _ => true
  | index _ container subscript => container.isPath && subscript.isOperand
  | _ => false

/-- The indices of a path, the outermost first. -/
def subscripts : Node → List Node
  | index _ container subscript => container.subscripts ++ [subscript]
  | _ => []

end Node

namespace Heap

/-- No index of a path stands for something that has a say about its key. -/
def SilentIndices (heap : Heap) (scope : Scope) (target : Node) : Prop :=
  ∀ subscript ∈ target.subscripts, ∀ value,
    heap.Denotes scope subscript value → value.Silent heap

/-- The variable that a path starts from, and the indices below it with their plain texts as
keys. -/
inductive Locates (heap : Heap) (scope : Scope) : Node → CellId → List Step → Prop
  | name {p : Position} {name : String} {cell : CellId} :
    heap.lookup? scope name = some cell → Locates heap scope (.leaf p (.name name)) cell []
  | member {p : Position} {object : Node} {name template : String} {id : StructId}
    {inner : Scope} {hooks : Hooks} {isStatic : Bool} {cell : CellId} :
    heap.Denotes scope object (.struct id) →
      heap.structs[id]? = some (.object template inner hooks isStatic) →
        heap.localCell? inner.frame name = some cell →
          Locates heap scope (.member p object name) cell []
  | index {p : Position} {container subscript : Node} {cell : CellId} {path : List Step}
    {value : Value} : Locates heap scope container cell path →
      heap.Denotes scope subscript value →
        Locates heap scope (.index p container subscript) cell
          (path ++ [⟨value, value.render heap.describe⟩])

/-- The path starts from a member that its instance lacks, and the member is declared with
null. -/
inductive Supplements (heap : Heap) (scope : Scope) : Node → Heap → Prop
  | member {p : Position} {object : Node} {name template : String} {id : StructId}
    {inner : Scope} {hooks : Hooks} {isStatic : Bool} :
    heap.Denotes scope object (.struct id) →
      heap.structs[id]? = some (.object template inner hooks isStatic) →
        heap.localCell? inner.frame name = none →
          Supplements heap scope (.member p object name)
            (heap.declare inner.frame name .null).2
  | index {p : Position} {container subscript : Node} {heap' : Heap} :
    Supplements heap scope container heap' →
      Supplements heap scope (.index p container subscript) heap'

/-- Declaring a missing member leaves the structures alone. -/
theorem Supplements.structs {heap heap' : Heap} {scope : Scope} {target : Node}
    (h : heap.Supplements scope target heap') : heap'.structs = heap.structs := by
  induction h with
  | member => rfl
  | index _ ih => exact ih

/-- When a missing member has been declared, an operand stands for what it stood for, or for
null. -/
theorem Supplements.denotes {heap heap' : Heap} {scope : Scope} {target node : Node}
    {value : Value} (h : heap.Supplements scope target heap')
    (hvalue : heap'.Denotes scope node value) : heap.Denotes scope node value ∨ value = .null := by
  induction h with
  | index _ ih => exact ih hvalue
  | @member _ _ declared _ _ inner _ _ =>
    have hget := fun name => get?_declare_null heap inner.frame declared name scope
    cases hvalue with
    | literal hliteral => exact Or.inl (.literal hliteral)
    | @name _ name _ hfound =>
      rcases hget name with hnull | hsame
      · rw [hnull] at hfound
        exact Or.inr (Option.some.inj hfound).symm
      · rw [hsame] at hfound
        exact Or.inl (.name hfound)
    | this hunknown howner =>
      rcases hget "this" with hnull | hsame
      · rw [hnull] at hunknown
        cases hunknown
      · rw [hsame] at hunknown
        rw [owner?_declare] at howner
        exact Or.inl (.this hunknown howner)
    | @kind _ name _ hunknown hkind =>
      rcases hget name with hnull | hsame
      · rw [hnull] at hunknown
        cases hunknown
      · rw [hsame] at hunknown
        exact Or.inl (.kind hunknown hkind)

/-- When a missing member has been declared, operands without methods are still without them. -/
theorem Supplements.silent {heap heap' : Heap} {scope : Scope} {target node : Node}
    {value : Value} (h : heap.Supplements scope target heap')
    (hsilent : ∀ value, heap.Denotes scope node value → value.Silent heap)
    (hvalue : heap'.Denotes scope node value) : value.Silent heap' := by
  intro id hid
  rw [hooks?, h.structs]
  rcases h.denotes hvalue with hbefore | rfl
  · exact hsilent value hbefore id hid
  · exact absurd hid List.not_mem_nil

end Heap

/-- Where the search for the place of a target ends: at a variable that is there, at a member that
had to be declared, or at a name that had to be declared. -/
inductive Reached (s : State) (scope : Scope) (creating : Bool) (target : Node) :
    Place → State → Prop
  | found {cell : CellId} {path : List Step} : s.heap.Locates scope target cell path →
    Reached s scope creating target ⟨cell, path⟩ s
  | member {heap : Heap} {cell : CellId} {path : List Step} :
    s.heap.Supplements scope target heap → heap.read cell = .null →
      Reached s scope creating target ⟨cell, path⟩ { s with heap := heap }
  | created {cell : CellId} {s' : State} : creating = true → s'.heap.isMutable cell = true →
    Reached s scope creating target ⟨cell, []⟩ s'

/-- The search for a place fails with the state as it was, or after declaring a member. -/
inductive Missed (s : State) (scope : Scope) (target : Node) : State → Prop
  | same : Missed s scope target s
  | member {heap : Heap} : s.heap.Supplements scope target heap →
    Missed s scope target { s with heap := heap }

namespace Evaluator

variable {e : Evaluator} {scope : Scope} {s : State}

/-- The cell of a member is found in its instance, or declared there. -/
theorem memberCell_ends {object : Node} {value : Value} (hvalue : s.heap.Denotes scope object value)
    (p : Position) (name : String) (creating : Bool) (env : Env) :
    Ends (memberCell name value) env s
      (fun cell => Reached s scope creating (.member p object name) ⟨cell, []⟩)
      (Missed s scope (.member p object name)) := by
  cases value with
  | struct id =>
    apply Ends.inspect_bind
    cases hstruct : s.heap.structs[id]? with
    | none => exact Ends.fault .same
    | some struct =>
      cases struct with
      | template => exact Ends.fault .same
      | object template inner hooks isStatic =>
        apply Ends.inspect_bind
        cases hcell : s.heap.localCell? inner.frame name with
        | some cell => exact Ends.pure (.found (.member hvalue hstruct hcell))
        | none =>
          exact Ends.declare (.member (.member hvalue hstruct hcell) (Heap.read_declare_self ..))
  | _ => exact Ends.fault .same

/-- One more index is evaluated without changing anything, and its key is its plain text. -/
theorem step_ends (he : e.ReadsOperands) {subscript : Node} (hsubscript : subscript.isOperand)
    (hsilent : ∀ value, s.heap.Denotes scope subscript value → value.Silent s.heap)
    (place : Place) (env : Env) :
    Ends (do
        let index := (← e.evaluate subscript scope).carried
        let key ← holding (.value index) (e.keyOf index)
        return (⟨place.cell, place.path ++ [⟨index, key⟩]⟩ : Place)) env s
      (fun place' s' => s' = s ∧ ∃ value, s.heap.Denotes scope subscript value ∧
        place' = ⟨place.cell, place.path ++ [⟨value, value.render s.heap.describe⟩]⟩) (· = s) := by
  refine (he subscript hsubscript scope env s).bind ?_
  rintro flow s' ⟨rfl, hvalue⟩
  have hkey := keyOf_eq_render e { env with held := .value flow.carried :: env.held }
    (hsilent _ hvalue)
  rw [Ends, bind_of_done (m := holding (.value flow.carried) (e.keyOf flow.carried)) hkey]
  exact ⟨rfl, flow.carried, hvalue, rfl⟩

/-- The search for the place of a target ends at its variable, or after one declaration. -/
theorem placeOf_ends (he : e.ReadsOperands) {target : Node} (htarget : target.isPath)
    (hsilent : s.heap.SilentIndices scope target) (creating : Bool) (env : Env) :
    Ends (e.placeOf scope creating target) env s (Reached s scope creating target)
      (Missed s scope target) := by
  induction target using Node.isPath.induct generalizing creating env with
  | case1 p name =>
    apply Ends.inspect_bind
    cases hcell : s.heap.lookup? scope name with
    | some cell => exact Ends.pure (.found (.name hcell))
    | none =>
      cases creating with
      | true =>
        apply Ends.declare_bind
        exact Ends.pure (.created rfl (Heap.isMutable_declare ..))
      | false => exact Ends.fault .same
  | case2 p q object name =>
    refine ((he (.leaf q (.name object)) rfl scope env s).weaken ?_).bind ?_
    · rintro s' rfl
      exact .same
    · rintro flow s' ⟨rfl, hvalue⟩
      refine (memberCell_ends hvalue p name creating env).bind ?_
      intro cell s' hreached
      exact Ends.pure hreached
  | case3 p container subscript ih =>
    obtain ⟨hcontainer, hsubscript⟩ := Bool.and_eq_true_iff.mp htarget
    have hsubscripts : s.heap.SilentIndices scope container := fun other hother =>
      hsilent other (List.mem_append_left _ hother)
    have hlast := hsilent subscript (List.mem_append_right _ List.mem_cons_self)
    refine ((ih hcontainer hsubscripts false env).weaken ?_).bind ?_
    · rintro s' (_ | hmember)
      · exact .same
      · exact .member (.index hmember)
    · rintro place s' hreached
      refine Ends.holding (Ends.holding ?_)
      cases hreached with
      | found hlocates =>
        refine (step_ends he hsubscript hlast ⟨_, _⟩ _).mono ?_ ?_
        · rintro place' s' ⟨rfl, value, hvalue, rfl⟩
          exact .found (.index hlocates hvalue)
        · rintro s' rfl
          exact .same
      | @member heap cell path hmember hnull =>
        have hlast' : ∀ value, heap.Denotes scope subscript value → value.Silent heap :=
          fun value => hmember.silent hlast
        refine (step_ends (s := { s with heap := heap }) he hsubscript hlast' ⟨_, _⟩ _).mono ?_ ?_
        · rintro place' s' ⟨rfl, value, -, rfl⟩
          exact .member (.index hmember) hnull
        · rintro s' rfl
          exact .member (.index hmember)
      | created hcreating => cases hcreating
  | case4 target hname hmember hindex =>
    rw [Node.isPath.eq_4 target hname hmember hindex] at htarget
    cases htarget

end Evaluator

/-- What a failed assignment leaves behind: nothing, or the member that it is about and that its
instance lacked, or one key that a dictionary on the path lacked. -/
inductive Leftover (s : State) (scope : Scope) (target : Node) : State → Prop
  | nothing : Leftover s scope target s
  | member {heap : Heap} : s.heap.Supplements scope target heap →
    Leftover s scope target { s with heap := heap }
  | key {cell : CellId} {path : List Step} {value : Value} :
    s.heap.Locates scope target cell path → s.heap.isMutable cell →
      Value.Enters path (s.heap.read cell) value →
        Leftover s scope target { s with heap := s.heap.put cell value }

/-- A search that fails leaves nothing behind but a member. -/
theorem Missed.leftover {s s' : State} {scope : Scope} {target : Node}
    (h : Missed s scope target s') : Leftover s scope target s' := by
  cases h with
  | same => exact .nothing
  | member hmember => exact .member hmember

/-- A failed walk below a variable leaves its value as it is, or with one missing key entered. -/
theorem updateCell_ends (cell : CellId) (update : Value → Except Fault Value) (path : List Step)
    (env : Env) (s : State) :
    Ends (updateCell cell (Value.updateAt update path)) env s (fun _ _ => True) fun s' =>
      s' = s ∨ s.heap.isMutable cell ∧ ∃ value, Value.Enters path (s.heap.read cell) value ∧
        s' = { s with heap := s.heap.put cell value } := by
  apply Ends.inspect_bind
  split
  · next hmutable =>
    apply Ends.modifyHeap_bind
    cases hwalk : Value.updateAt update path (s.heap.read cell) with
    | mk outcome value =>
      cases outcome with
      | ok written => exact Ends.pure trivial
      | error fault =>
        refine Ends.fault ?_
        rcases Value.updateAt_failed hwalk with rfl | henters
        · exact Or.inl (congrArg (fun heap => { s with heap := heap }) (Heap.put_read s.heap cell))
        · exact Or.inr ⟨hmutable, value, henters, rfl⟩
  · exact Ends.fault (Or.inl rfl)

namespace Evaluator

variable {e : Evaluator} {scope : Scope} {s : State}

/-- A write that fails leaves at most a member or a key behind. -/
theorem writeTo_ends (he : e.ReadsOperands) {target : Node} (htarget : target.isPath)
    (hsilent : s.heap.SilentIndices scope target) (operator : Operator) (value : Value)
    (env : Env) :
    Ends (e.writeTo operator target value scope) env s (fun _ _ => True)
      (Leftover s scope target) := by
  refine ((placeOf_ends he htarget hsilent _ env).weaken fun _ h => h.leftover).bind ?_
  intro place s' hreached
  have hwrite : Ends (updateCell place.cell (Value.updateAt (operator.updated value) place.path))
      env s' (fun _ _ => True) (Leftover s scope target) := by
    cases hreached with
    | @found cell path hlocates =>
      refine (updateCell_ends cell _ path env s).weaken ?_
      rintro s' (rfl | ⟨hmutable, value, henters, rfl⟩)
      · exact .nothing
      · exact .key hlocates hmutable henters
    | @member heap cell path hmember hnull =>
      refine (updateCell_ends cell _ path env { s with heap := heap }).weaken ?_
      rintro s' (rfl | ⟨-, value, henters, -⟩)
      · exact .member hmember
      · rw [hnull] at henters
        cases henters
    | @created cell s' hcreating hmutable =>
      -- writing to a name that has just been declared cannot fail
      cases eq_of_beq hcreating
      apply Ends.inspect_bind
      rw [hmutable, if_pos rfl]
      apply Ends.modifyHeap_bind
      exact Ends.pure trivial
  exact hwrite.bind fun _ _ _ => Ends.pure trivial

/-- After asking whether an expression names a kind the state is as it was. -/
theorem typeName?_bind {node : Node} {k : Option Kind → Eval Flow} {env : Env}
    {done : Flow → State → Prop} {stopped : State → Prop}
    (h : ∀ kind?, Ends (k kind?) env s done stopped) :
    Ends (typeName? node scope >>= k) env s done stopped := by
  unfold typeName?
  split
  · exact Ends.inspect_bind (h _)
  · exact h none

/-- An assignment that fails leaves at most a member or a key behind. -/
theorem assign_ends (he : e.ReadsOperands) {target value : Node} (htarget : target.isPath)
    (hvalue : value.isOperand) (hsilent : s.heap.SilentIndices scope target)
    (operator : Operator) (env : Env) :
    Ends (e.assign operator target value scope) env s (fun _ _ => True)
      (Leftover s scope target) := by
  refine Ends.bind ((he value hvalue scope env s).weaken ?_) ?_
  · rintro s' rfl
    exact .nothing
  rintro flow s' ⟨rfl, -⟩
  cases flow with
  | returned value => exact Ends.pure trivial
  | broken => exact Ends.pure trivial
  | value value =>
    refine Ends.holding ?_
    have hwrite := fun env => writeTo_ends he htarget hsilent operator value env
    dsimp only
    split
    · refine typeName?_bind fun kind? => ?_
      cases kind? with
      | none => exact hwrite _
      | some kind =>
        change Ends (registerMethod kind _ operator value) _ _ _ _
        unfold registerMethod
        split
        · exact True.intro
        · exact Ends.fault .nothing
    · exact hwrite _

end Evaluator

/-- A failed assignment to a variable, a member of a variable or a chain of indices below one of
these leaves the state as it was, apart from the member that the instance lacked or one key that a
dictionary on the path lacked, which is null. -/
theorem evaluate_assign_failed {depth : Nat} {p : Position} {operator : Operator}
    {target value : Node} {scope : Scope} {env : Env} {s s' : State} {fault : Fault}
    (htarget : target.isPath) (hvalue : value.isOperand)
    (hsilent : s.heap.SilentIndices scope target)
    (hfailed : evaluate host depth (.assign p operator target value) scope env s =
      .failed fault s') :
    Leftover s scope target s' := by
  cases depth with
  | zero => cases hfailed
  | succ depth =>
    have he : (Evaluator.within host depth).ReadsOperands :=
      fun node hnode scope env s => evaluate_operand host depth hnode scope env s
    exact ((Evaluator.assign_ends he htarget hvalue hsilent operator env).stamp p).of_failed hfailed

/-- An assignment below a missing key of a dictionary leaves what it may leave. -/
theorem evaluate_assign_failed_below_key :
    let s : State :=
      ⟨⟨#[⟨[("d", 0)], none⟩], #[⟨.dictionary [], true⟩], #[], #[], 0⟩, [], false, #[]⟩
    let target : Node := .index ⟨1, 7⟩
      (.index ⟨1, 2⟩ (.leaf ⟨1, 1⟩ (.name "d")) (.leaf ⟨1, 3⟩ (.text "x")))
      (.leaf ⟨1, 8⟩ (.text "y"))
    let ending :=
      evaluate [] 3 (.assign ⟨1, 13⟩ .assign target (.leaf ⟨1, 15⟩ .null)) ⟨0, []⟩ ⟨.empty, []⟩ s
    (∃ fault, ending = .failed fault ending.state) ∧ Leftover s ⟨0, []⟩ target ending.state := by
  intro s target ending
  have htext : ∀ p t value, s.heap.Denotes ⟨0, []⟩ (.leaf p (.text t)) value →
      value.Silent s.heap := by
    intro p t value hvalue id hid
    cases hvalue with
    | literal hliteral =>
      cases hliteral
      cases hid
  have hsilent : s.heap.SilentIndices ⟨0, []⟩ target := by
    intro subscript hsubscript
    simp only [target, Node.subscripts, List.nil_append, List.cons_append, List.mem_cons,
      List.not_mem_nil, or_false] at hsubscript
    rcases hsubscript with rfl | rfl
    · exact htext _ _
    · exact htext _ _
  obtain ⟨fault, hfailed⟩ : ∃ fault, ending = .failed fault ending.state :=
    ⟨_, by with_unfolding_all rfl⟩
  exact ⟨⟨fault, hfailed⟩,
    @evaluate_assign_failed [] 3 _ _ target (.leaf ⟨1, 15⟩ .null) _ _ s _ _ rfl rfl hsilent hfailed⟩

/-- After `d = dict()`, the assignment `d["x"]["y"] = null` fails and leaves a key in `d`. -/
theorem evaluate_assign_leaves_key :
    let session := Session.start .empty false
    let env : Env := ⟨session.table, [.scope session.global]⟩
    let d : Node := .leaf ⟨1, 1⟩ (.name "d")
    let make : Node := .assign ⟨1, 3⟩ .assign d (.call ⟨1, 9⟩ (.leaf ⟨1, 5⟩ (.name "dict")) [])
    let target : Node :=
      .index ⟨2, 7⟩ (.index ⟨2, 2⟩ d (.leaf ⟨2, 3⟩ (.text "x"))) (.leaf ⟨2, 8⟩ (.text "y"))
    let before := (evaluate [] 9 make session.global env session.state).state
    let ending :=
      evaluate [] 9 (.assign ⟨2, 13⟩ .assign target (.leaf ⟨2, 15⟩ .null)) session.global env before
    (∃ fault, ending = .failed fault ending.state) ∧
      before.heap.get? session.global "d" = some (.dictionary []) ∧
      ending.state.heap.get? session.global "d" = some (.dictionary [("x", .null)]) :=
  ⟨⟨_, by with_unfolding_all rfl⟩, by with_unfolding_all rfl, by with_unfolding_all rfl⟩

end SoundLaw
