import SoundLaw.Proofs.Eval.FailedAssignment
import SoundLaw.Proofs.Eval.Interruption
import SoundLaw.Proofs.Heap.Liveness
import SoundLaw.Proofs.Value.Paths

/-!
# Reading a path

A path is a variable or a member of a variable and a chain of indices below it. An assignment walks
the path inside the value of the variable, and an expression reads it one index after the other.
Both come to the same: where the walk leads somewhere, reading gives the value there and changes
nothing; and where reading gives a value, nothing has changed, provided that no container on the
path is an instance with a method for its elements.

What is held while a path is read is living anyway, because it comes from the scope or from an
instance that has been found to be alive. So the literals and variables of a path have the same
values whether something of it is held or not. This matters for the name of the instance around a
scope only, which has a value as long as the instance is alive.
-/

namespace SoundLaw

open Eval

variable {host : Host}

/-- An evaluation works in a scope: the scope is living, and the instance around it, if there is
one, is in the heap. -/
structure WorksIn (env : Env) (s : State) (scope : Scope) : Prop where
  frames : ∀ ref ∈ scope.refs, living env s ref
  owner : ∀ id, s.heap.owner? scope = some id → id < s.heap.structs.size

/-- An operand stands for a value, and what the value refers to is living. -/
def Answers (env : Env) (s : State) (scope : Scope) (node : Node) (value : Value) : Prop :=
  s.heap.Denotes scope node value ∧ ∀ ref ∈ value.refs, living env s ref

namespace WorksIn

variable {env : Env} {s s' : State} {scope : Scope}

/-- To work in a scope is not changed by holding on to what is living anyway. -/
theorem holding (h : WorksIn env s scope) {held : Held}
    (hheld : ∀ ref ∈ held.refs, living env s ref) :
    WorksIn { env with held := held :: env.held } s scope where
  frames := by
    rw [living_holding hheld]
    exact h.frames
  owner := h.owner

/-- What a variable refers to is living. -/
theorem living_read (h : WorksIn env s scope) {name : String} {cell : CellId}
    (hcell : s.heap.lookup? scope name = some cell) {ref : Ref}
    (href : ref ∈ (s.heap.read cell).refs) : living env s ref :=
  (Heap.Living.of_lookup? h.frames hcell).refs href

/-- The instance around a scope is found behind `this` if it is alive. -/
theorem ownerOf_this {id : StructId} (howner : s.heap.owner? scope = some id) :
    Evaluator.nameValue.ownerOf scope "this" env s =
      .done (if s.heap.isAlive (roots env s) (.struct id) then some id else none) s := by
  rw [Evaluator.nameValue.ownerOf, if_pos rfl, bind_of_done (m := inspect _) rfl, howner]
  rfl

/-- The name of a variable answers its value, and `this` the living instance around the scope. -/
theorem nameValue_eq_done_iff (h : WorksIn env s scope) (p : Position) {name : String}
    {value : Value} : Evaluator.nameValue scope name env s = .done value s' ↔
      s' = s ∧ Answers env s scope (.leaf p (.name name)) value := by
  constructor
  · intro hdone
    have hends := Evaluator.nameValue_ends scope name p env s
    rw [Ends, hdone] at hends
    obtain ⟨rfl, hdenotes⟩ := hends
    refine ⟨rfl, hdenotes, ?_⟩
    cases hdenotes with
    | literal hliteral => cases hliteral
    | name hget =>
      obtain ⟨cell, hcell, rfl⟩ := Option.map_eq_some_iff.mp hget
      exact fun ref => h.living_read hcell
    | @this _ id hunknown howner =>
      rw [Evaluator.nameValue, bind_of_done (m := inspect _) rfl, hunknown] at hdone
      cases halive : s'.heap.isAlive (roots env s') (.struct id) with
      | true =>
        intro ref href
        cases List.mem_singleton.mp href
        exact Heap.Living.of_isAlive halive
      | false =>
        dsimp only at hdone
        rw [bind_of_done (ownerOf_this howner), halive] at hdone
        cases hdone
    | kind => exact fun ref href => absurd href List.not_mem_nil
  · rintro ⟨rfl, hdenotes, hliving⟩
    rw [Evaluator.nameValue, bind_of_done (m := inspect _) rfl]
    cases hdenotes with
    | literal hliteral => cases hliteral
    | name hget =>
      rw [hget]
      rfl
    | @this _ id hunknown howner =>
      have halive := (Heap.isAlive_iff_living
        (Heap.struct_mem_contents (h.owner id howner))).mpr (hliving _ List.mem_cons_self)
      rw [hunknown]
      dsimp only
      rw [bind_of_done (ownerOf_this howner), halive]
      rfl
    | @kind _ _ kind hunknown hkind =>
      have hname : name ≠ "this" := by
        rintro rfl
        cases hkind
      have howner : Evaluator.nameValue.ownerOf scope name env s' = .done none s' := by
        rw [Evaluator.nameValue.ownerOf, if_neg hname]
        rfl
      rw [hunknown]
      dsimp only
      rw [bind_of_done howner]
      dsimp only
      rw [hkind]
      rfl

/-- A literal or a variable that an evaluation reads answers a value, and nothing changes. -/
theorem evaluate_operand_eq_done_iff (host : Host) (h : WorksIn env s scope) {node : Node}
    (hnode : node.isOperand) {depth : Nat} (hdepth : 0 < depth) {flow : Flow} :
    evaluate host depth node scope env s = .done flow s' ↔
      s' = s ∧ ∃ value, flow = .value value ∧ Answers env s scope node value := by
  obtain ⟨depth, rfl⟩ := Nat.exists_eq_add_one.mpr hdepth
  cases node with
  | leaf p operand =>
    rw [evaluate, stamp_eq_done_iff]
    cases operand with
    | name name =>
      change (Evaluator.nameValue scope name >>= fun value => pure (Flow.value value)) env s = _ ↔ _
      rw [bind_eq_done_iff]
      constructor
      · rintro ⟨value, s₁, hvalue, hpure⟩
        obtain ⟨rfl, hanswer⟩ := (h.nameValue_eq_done_iff p).mp hvalue
        cases hpure
        exact ⟨rfl, value, rfl, hanswer⟩
      · rintro ⟨rfl, value, rfl, hanswer⟩
        exact ⟨value, s', (h.nameValue_eq_done_iff p).mpr ⟨rfl, hanswer⟩, rfl⟩
    | stop | declare => cases hnode
    | null | bool | number | text | phone | word | feature =>
      constructor
      · intro hdone
        cases hdone
        exact ⟨rfl, _, rfl, .literal rfl, fun ref href => absurd href List.not_mem_nil⟩
      · rintro ⟨rfl, value, rfl, hdenotes, -⟩
        cases hdenotes with
        | literal hliteral =>
          cases hliteral
          rfl
  | _ => cases hnode

end WorksIn

namespace Value

/-- Whether a value is no instance and holds no other values that could be walked into. -/
def isFlat : Value → Bool
  | vector _ | dictionary _ | struct _ => false
  | _ => true

/-- A part of a flat value is flat. -/
theorem isFlat_part {table : Table} {value index inner : Value} (hflat : value.isFlat)
    (h : value.part table index = .ok inner) : inner.isFlat := by
  cases value with
  | text t =>
    obtain ⟨i, -, hinner⟩ := bind_eq_ok_iff.mp h
    cases hinner
    cases t.toList[i]? <;> rfl
  | word w =>
    obtain ⟨i, -, hinner⟩ := bind_eq_ok_iff.mp h
    cases hinner
    cases w.phone? i <;> rfl
  | matrix m =>
    cases index with
    | text name =>
      change (if table.hasFeature name then _ else _) = _ at h
      split at h
      · cases h
        rfl
      · cases h
    | _ => cases h
  | vector | dictionary | struct => cases hflat
  | _ => cases h

/-- One step into a vector leads to its part. -/
theorem below?_vector_eq_some_iff {table : Table} {elements : List Value} {step : Step}
    {inner : Value} : (vector elements).below? step = some inner ↔
      (vector elements).part table step.index = .ok inner := by
  rw [below?, part]
  cases step.index.asIndex elements.length with
  | error fault =>
    constructor
    · intro hbelow
      cases hbelow
    · intro hpart
      cases hpart
  | ok i => exact ⟨fun h => congrArg Except.ok (Option.some.inj h),
      fun h => congrArg some (Except.ok.inj h)⟩

end Value

namespace Evaluator

variable {e : Evaluator} {env : Env} {s s' : State}

/-- A dictionary is asked by the plain text of an index that has no say about its key. -/
theorem elementOf_dictionary {entries : List (String × Value)} {index : Value}
    (hsilent : index.Silent s.heap) : e.elementOf (.dictionary entries) index env s =
      .done ((Value.entry? (index.render s.heap.describe) entries).getD .null) s :=
  bind_of_done (m := holding (.value index) (e.keyOf index)) (keyOf_eq_render e _ hsilent) _

/-- One step into a vector or a dictionary gives what stands there. -/
theorem elementOf_of_below? {container index inner : Value} (hsilent : index.Silent s.heap)
    (h : container.below? ⟨index, index.render s.heap.describe⟩ = some inner) :
    e.elementOf container index env s = .done inner s := by
  cases container with
  | vector elements =>
    exact ofExcept_eq_done_iff.mpr ⟨Value.below?_vector_eq_some_iff.mp h, rfl⟩
  | dictionary entries =>
    cases h
    exact elementOf_dictionary hsilent
  | _ => cases h

/-- One step into a value that has no method for its elements changes nothing. It gives a flat value
or what stands in a vector or a dictionary. -/
theorem elementOf_done {container index inner : Value} (hsilent : index.Silent s.heap)
    (hopen : ∀ id, container = .struct id → (s.heap.hooks? id).bind (·.element) = none)
    (h : e.elementOf container index env s = .done inner s') :
    s' = s ∧ (inner.isFlat ∨
      container.below? ⟨index, index.render s.heap.describe⟩ = some inner) := by
  cases container with
  | vector elements =>
    obtain ⟨hpart, rfl⟩ := ofExcept_eq_done_iff.mp h
    exact ⟨rfl, Or.inr (Value.below?_vector_eq_some_iff.mpr hpart)⟩
  | dictionary entries =>
    rw [elementOf_dictionary hsilent] at h
    cases h
    exact ⟨rfl, Or.inr rfl⟩
  | struct id =>
    have hhook : hook? (·.element) id env s = .done none s := by
      rw [← hopen id rfl]
      rfl
    rw [elementOf, bind_of_done hhook] at h
    cases h
  | text | word | matrix =>
    obtain ⟨hpart, rfl⟩ := ofExcept_eq_done_iff.mp h
    exact ⟨rfl, Or.inl (Value.isFlat_part rfl hpart)⟩
  | _ => cases h

end Evaluator

namespace Node

/-- The literals and variables of a path: the object of its member and its indices. -/
def operands : Node → List Node
  | member _ object _ => [object]
  | index _ container subscript => container.operands ++ [subscript]
  | _ => []

/-- The name that a path starts from, unless it starts from a member. -/
def root? : Node → Option String
  | leaf _ (.name name) => some name
  | index _ container _ => container.root?
  | _ => none

end Node

namespace Heap

/-- What the literals and variables of a path stand for is living. -/
def LivingOperands (heap : Heap) (living : Ref → Prop) (scope : Scope) (target : Node) : Prop :=
  ∀ operand ∈ target.operands, ∀ value, heap.Denotes scope operand value →
    ∀ ref ∈ value.refs, living ref

section Index

variable {heap : Heap} {living : Ref → Prop} {scope : Scope} {p : Position}
  {container subscript : Node}

/-- The operands of a container are among those of the path below it. -/
theorem LivingOperands.init
    (h : heap.LivingOperands living scope (.index p container subscript)) :
    heap.LivingOperands living scope container :=
  fun operand hmem => h operand (List.mem_append_left _ hmem)

/-- The last index is an operand of a path. -/
theorem LivingOperands.last
    (h : heap.LivingOperands living scope (.index p container subscript)) :
    ∀ value, heap.Denotes scope subscript value → ∀ ref ∈ value.refs, living ref :=
  h subscript (List.mem_append_right _ List.mem_cons_self)

/-- The indices of a container are among those of the path below it. -/
theorem SilentIndices.init (h : heap.SilentIndices scope (.index p container subscript)) :
    heap.SilentIndices scope container :=
  fun other hmem => h other (List.mem_append_left _ hmem)

/-- The last index is among the indices of a path. -/
theorem SilentIndices.last (h : heap.SilentIndices scope (.index p container subscript)) :
    ∀ value, heap.Denotes scope subscript value → value.Silent heap :=
  h subscript (List.mem_append_right _ List.mem_cons_self)

end Index

/-- No container that a path leads through is an instance with a method for its elements. -/
def OpenPath (heap : Heap) (scope : Scope) : Node → Prop
  | .index _ container _ => OpenPath heap scope container ∧
    ∀ cell path id, heap.Locates scope container cell path →
      (heap.read cell).walk path = some (.struct id) → (heap.hooks? id).bind (·.element) = none
  | _ => True

end Heap

section Paths

variable {env : Env} {s s' : State} {scope : Scope} {target : Node} {cell : CellId}
  {path : List Step}

/-- The variable of a member is living if the instance is. -/
theorem living_member {id : StructId} {template name : String} {inner : Scope} {hooks : Hooks}
    {isStatic : Bool} (hid : living env s (.struct id))
    (hstruct : s.heap.structs[id]? = some (.object template inner hooks isStatic))
    (hcell : s.heap.localCell? inner.frame name = some cell) : living env s (.cell cell) := by
  have hframe : living env s (.frame inner.frame) := by
    refine hid.refs ?_
    rw [Heap.refsOf, hstruct]
    exact List.mem_append_left _ List.mem_cons_self
  exact hframe.of_localCell? hcell

/-- What a path whose operands are living starts from and leads through is living. -/
theorem Heap.Locates.living_place (hlocates : s.heap.Locates scope target cell path)
    (h : WorksIn env s scope) (hliving : s.heap.LivingOperands (living env s) scope target) :
    living env s (.cell cell) ∧ ∀ ref ∈ Value.refsAll (path.map (·.index)), living env s ref := by
  induction hlocates with
  | name hlookup =>
    exact ⟨.of_lookup? h.frames hlookup, fun ref href => absurd href List.not_mem_nil⟩
  | @member p object name template id inner hooks isStatic cell hdenotes hstruct hcell =>
    have hid : living env s (.struct id) :=
      hliving object List.mem_cons_self _ hdenotes _ List.mem_cons_self
    exact ⟨living_member hid hstruct hcell, fun ref href => absurd href List.not_mem_nil⟩
  | @index p container subscript cell path value _ hdenotes ih =>
    obtain ⟨hcell, hpath⟩ := ih hliving.init
    refine ⟨hcell, fun ref href => ?_⟩
    obtain ⟨index, hindex, href⟩ := Value.mem_refsAll.mp href
    rw [List.map_append, List.mem_append] at hindex
    rcases hindex with hindex | hindex
    · exact hpath ref (Value.mem_refsAll.mpr ⟨index, hindex, href⟩)
    · cases List.mem_singleton.mp hindex
      exact hliving.last _ hdenotes ref href

/-- A path that leads somewhere is read as the value there, and nothing changes. -/
theorem Heap.Locates.evaluate_eq (hlocates : s.heap.Locates scope target cell path)
    (h : WorksIn env s scope) (hsilent : s.heap.SilentIndices scope target)
    (hliving : s.heap.LivingOperands (living env s) scope target) {value : Value}
    (hwalk : (s.heap.read cell).walk path = some value) {depth : Nat}
    (hdepth : target.height ≤ depth) :
    evaluate host depth target scope env s = .done (.value value) s := by
  induction hlocates generalizing depth value with
  | @name p name cell hlookup =>
    cases hwalk
    refine (h.evaluate_operand_eq_done_iff host rfl hdepth).mpr ⟨rfl, _, rfl, .name ?_, ?_⟩
    · rw [get?, hlookup]
      rfl
    · exact fun ref => h.living_read hlookup
  | @member p object name template id inner hooks isStatic cell hdenotes hstruct hcell =>
    obtain ⟨depth, rfl⟩ := Node.exists_eq_succ_of_height_le hdepth
    cases hwalk
    have hpos : 0 < depth :=
      Nat.lt_of_lt_of_le object.height_pos (Nat.le_of_succ_le_succ hdepth)
    have hobject : evaluate host depth object scope env s = .done (.value (.struct id)) s :=
      (h.evaluate_operand_eq_done_iff host hdenotes.isOperand hpos).mpr
        ⟨rfl, _, rfl, hdenotes, hliving object List.mem_cons_self _ hdenotes⟩
    have hmember : Evaluator.memberOf id name env s = .done (s.heap.read cell) s := by
      rw [Evaluator.memberOf, bind_of_done (m := inspect _) rfl, hstruct]
      dsimp only
      rw [bind_of_done (m := inspect _) rfl, hcell]
      rfl
    rw [evaluate, stamp_eq_done_iff, Evaluator.expression, Evaluator.member,
      bind_of_done (Evaluator.typeName?_of_denotes_struct hdenotes)]
    dsimp only
    rw [andThen_of_done hobject]
    dsimp only
    rw [bind_of_done hmember]
    rfl
  | @index p container subscript cell path index hcontainer hdenotes ih =>
    obtain ⟨depth, rfl⟩ := Node.exists_eq_succ_of_height_le hdepth
    obtain ⟨hcheight, hsheight⟩ := Nat.max_le.mp (Nat.le_of_succ_le_succ hdepth)
    rw [Value.walk_append_singleton] at hwalk
    obtain ⟨outer, houter, hbelow⟩ := Option.bind_eq_some_iff.mp hwalk
    have hread := ih hsilent.init hliving.init houter hcheight
    -- the container is held, but it comes from a variable that is living anyway
    have hheld : ∀ ref ∈ (Held.value outer).refs, living env s ref := fun ref href =>
      (hcontainer.living_place h hliving.init).1.refs (Value.refs_walk houter href)
    have hanswer :
        Answers { env with held := .value outer :: env.held } s scope subscript index := by
      refine ⟨hdenotes, ?_⟩
      rw [living_holding hheld]
      exact hliving.last _ hdenotes
    have hindex := ((h.holding hheld).evaluate_operand_eq_done_iff host hdenotes.isOperand
      (Nat.lt_of_lt_of_le subscript.height_pos hsheight)).mpr ⟨rfl, _, rfl, hanswer⟩
    rw [evaluate, stamp_eq_done_iff, Evaluator.expression, holdThen_of_done hread,
      andThen_of_done hindex,
      bind_of_done (Evaluator.elementOf_of_below? (hsilent.last _ hdenotes) hbelow)]
    rfl

/-- A method of a kind of values is a function, and looking it up changes nothing. -/
theorem methodOf_done {kind : Kind} {name : String} {value : Value}
    (h : Evaluator.methodOf kind name env s = .done value s') :
    s' = s ∧ ∃ callable, value = .function callable := by
  rw [Evaluator.methodOf, bind_of_done (m := method? kind name) rfl] at h
  cases hmethod : s.methods.lookup (kind, name) with
  | none =>
    rw [hmethod] at h
    cases h
  | some callable =>
    rw [hmethod] at h
    cases h
    exact ⟨rfl, callable, rfl⟩

/-- A member of an instance is the value of its variable, and reading it changes nothing. -/
theorem memberOf_done {id : StructId} {name : String} {value : Value}
    (h : Evaluator.memberOf id name env s = .done value s') :
    s' = s ∧ ∃ template inner hooks isStatic cell,
      s.heap.structs[id]? = some (.object template inner hooks isStatic) ∧
        s.heap.localCell? inner.frame name = some cell ∧ value = s.heap.read cell := by
  rw [Evaluator.memberOf, bind_of_done (m := inspect _) rfl] at h
  cases hstruct : s.heap.structs[id]? with
  | none =>
    rw [hstruct] at h
    cases h
  | some struct =>
    rw [hstruct] at h
    cases struct with
    | template => cases h
    | object template inner hooks isStatic =>
      dsimp only at h
      rw [bind_of_done (m := inspect _) rfl] at h
      cases hcell : s.heap.localCell? inner.frame name with
      | none =>
        rw [hcell] at h
        cases h
      | some cell =>
        rw [hcell] at h
        cases h
        exact ⟨rfl, template, inner, hooks, isStatic, cell, rfl, hcell, rfl⟩

/-- Reading a member changes nothing. What is read is a method, which is flat, or the value of a
living variable. -/
theorem evaluate_member_done {depth : Nat} {p : Position} {object : Node} {name : String}
    (h : WorksIn env s scope) (hoperand : object.isOperand) {flow : Flow}
    (hdone : evaluate host depth (.member p object name) scope env s = .done flow s') :
    s' = s ∧ ∃ value, flow = .value value ∧ (value.isFlat ∨ ∃ cell, living env s (.cell cell) ∧
      s.heap.Locates scope (.member p object name) cell [] ∧ value = s.heap.read cell) := by
  cases depth with
  | zero => cases hdone
  | succ depth =>
    rw [evaluate, stamp_eq_done_iff, Evaluator.expression, Evaluator.member] at hdone
    obtain ⟨kind?, hkind⟩ := Evaluator.typeName?_done object scope env s
    rw [bind_of_done hkind] at hdone
    cases kind? with
    | some kind =>
      obtain ⟨value, s₁, hmethod, hpure⟩ := bind_eq_done_iff.mp hdone
      obtain ⟨rfl, callable, rfl⟩ := methodOf_done hmethod
      cases hpure
      exact ⟨rfl, _, rfl, Or.inl rfl⟩
    | none =>
      obtain ⟨flow₁, s₁, hobject, hrest⟩ := bind_eq_done_iff.mp hdone
      have hpos : 0 < depth := by
        cases depth with
        | zero => cases hobject
        | succ => exact Nat.succ_pos _
      obtain ⟨rfl, found, rfl, hdenotes, hrefs⟩ :=
        (h.evaluate_operand_eq_done_iff host hoperand hpos).mp hobject
      dsimp only at hrest
      split at hrest
      · obtain ⟨value, s₂, hmember, hpure⟩ := bind_eq_done_iff.mp hrest
        obtain ⟨rfl, _, _, _, _, cell, hstruct, hcell, rfl⟩ := memberOf_done hmember
        cases hpure
        have hliving := living_member (hrefs _ List.mem_cons_self) hstruct hcell
        exact ⟨rfl, _, rfl, Or.inr ⟨cell, hliving, .member hdenotes hstruct hcell, rfl⟩⟩
      · obtain ⟨value, s₂, hmethod, hpure⟩ := bind_eq_done_iff.mp hrest
        obtain ⟨rfl, callable, rfl⟩ := methodOf_done hmethod
        cases hpure
        exact ⟨rfl, _, rfl, Or.inl rfl⟩

/-- Reading a path changes nothing if no container on it has a method for its elements. What is read
is flat, or it stands at the end of the path below a living variable. -/
theorem evaluate_path_done {depth : Nat} (h : WorksIn env s scope) (htarget : target.isPath)
    (hroot : ∀ name ∈ target.root?, (s.heap.lookup? scope name).isSome)
    (hsilent : s.heap.SilentIndices scope target) (hopen : s.heap.OpenPath scope target)
    {flow : Flow} (hdone : evaluate host depth target scope env s = .done flow s') :
    s' = s ∧ ∃ value, flow = .value value ∧ (value.isFlat ∨ ∃ cell path,
      living env s (.cell cell) ∧ s.heap.Locates scope target cell path ∧
        (s.heap.read cell).walk path = some value) := by
  induction target using Node.isPath.induct generalizing depth flow s' with
  | case1 p name =>
    obtain ⟨rfl, value, rfl, hdenotes⟩ := evaluate_operand_done rfl hdone
    obtain ⟨cell, hcell⟩ := Option.isSome_iff_exists.mp (hroot name rfl)
    have hget : s'.heap.get? scope name = some (s'.heap.read cell) := by
      rw [Heap.get?, hcell]
      rfl
    exact ⟨rfl, value, rfl, Or.inr ⟨cell, [], .of_lookup? h.frames hcell, .name hcell,
      congrArg some ((Heap.Denotes.name hget).unique hdenotes)⟩⟩
  | case2 p q object name =>
    obtain ⟨rfl, value, rfl, hflat | ⟨cell, hliving, hlocates, rfl⟩⟩ :=
      evaluate_member_done h rfl hdone
    · exact ⟨rfl, value, rfl, Or.inl hflat⟩
    · exact ⟨rfl, _, rfl, Or.inr ⟨cell, [], hliving, hlocates, rfl⟩⟩
  | case3 p container subscript ih =>
    cases depth with
    | zero => cases hdone
    | succ depth =>
      obtain ⟨hcontainer, hsubscript⟩ := Bool.and_eq_true_iff.mp htarget
      rw [evaluate, stamp_eq_done_iff, Evaluator.expression] at hdone
      obtain ⟨flow₁, s₁, hread, hrest⟩ := bind_eq_done_iff.mp hdone
      obtain ⟨rfl, outer, rfl, houter⟩ := ih hcontainer hroot hsilent.init hopen.1 hread
      obtain ⟨flow₂, s₂, hindex, hrest⟩ := bind_eq_done_iff.mp hrest
      obtain ⟨rfl, index, rfl, hdenotes⟩ := evaluate_operand_done hsubscript hindex
      obtain ⟨value, s₃, helement, hpure⟩ := bind_eq_done_iff.mp hrest
      cases hpure
      have hhook : ∀ id, outer = .struct id → (s₂.heap.hooks? id).bind (·.element) = none := by
        rintro id rfl
        obtain hflat | ⟨cell, path, -, hlocates, hwalk⟩ := houter
        · cases hflat
        · exact hopen.2 cell path id hlocates hwalk
      obtain ⟨rfl, hflat | hbelow⟩ :=
        Evaluator.elementOf_done (hsilent.last _ hdenotes) hhook helement
      · exact ⟨rfl, value, rfl, Or.inl hflat⟩
      · obtain hflat | ⟨cell, path, hliving, hlocates, hwalk⟩ := houter
        · cases outer with
          | vector | dictionary => cases hflat
          | _ => cases hbelow
        · refine ⟨rfl, value, rfl, Or.inr ⟨cell, _, hliving, .index hlocates hdenotes, ?_⟩⟩
          rw [Value.walk_append_singleton, hwalk]
          exact hbelow
  | case4 target hname hmember hindex =>
    rw [Node.isPath.eq_4 target hname hmember hindex] at htarget
    cases htarget

/-- A path below a member that its instance lacks cannot be read. -/
theorem Heap.Supplements.evaluate_ne_done {heap : Heap} (h : s.heap.Supplements scope target heap)
    (depth : Nat) (flow : Flow) : evaluate host depth target scope env s ≠ .done flow s' := by
  intro hdone
  induction h generalizing depth flow s' with
  | @member p object name template id inner hooks isStatic hdenotes hstruct hcell =>
    cases depth with
    | zero => cases hdone
    | succ depth =>
      rw [evaluate, stamp_eq_done_iff, Evaluator.expression, Evaluator.member,
        bind_of_done (Evaluator.typeName?_of_denotes_struct hdenotes)] at hdone
      obtain ⟨flow₁, s₁, hobject, hrest⟩ := bind_eq_done_iff.mp hdone
      obtain ⟨rfl, found, rfl, hfound⟩ := evaluate_operand_done hdenotes.isOperand hobject
      cases hdenotes.unique hfound
      obtain ⟨value, s₂, hmember, -⟩ := bind_eq_done_iff.mp hrest
      obtain ⟨-, _, _, _, _, cell, hstruct', hcell', -⟩ := memberOf_done hmember
      rw [hstruct] at hstruct'
      cases hstruct'
      rw [hcell] at hcell'
      cases hcell'
  | index _ ih =>
    cases depth with
    | zero => cases hdone
    | succ depth =>
      rw [evaluate, stamp_eq_done_iff, Evaluator.expression] at hdone
      obtain ⟨flow₁, s₁, hread, -⟩ := bind_eq_done_iff.mp hdone
      exact ih depth flow₁ hread

end Paths

end SoundLaw
