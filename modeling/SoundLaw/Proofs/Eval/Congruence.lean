import SoundLaw.Eval.Expression
import SoundLaw.Proofs.Value.Faults

/-!
# Relations that evaluation respects

Many statements about evaluations are relations between two computations, or predicates of one, that
hold of every elementary step and are handed on from the parts of a computation to the whole. Such a
relation is a congruence. It holds between the evaluations of an expression by two evaluators as
soon as it holds between what these do one level deeper, and the proof of that goes through the
forms of expressions once and for all.

Where names are declared is left to the relation: it says which scopes are open to declarations.
In a scope that is not open, the expressions that are fit for it can still be evaluated: those whose
declarations there the relation allows.
-/

namespace SoundLaw

open Eval

/-- A relation between computations that holds of every elementary step of an evaluation and is
handed on by everything that puts computations together. Names are declared in open scopes only. -/
structure Congruence (R : ∀ {α : Type}, Eval α → Eval α → Prop) (Open : Scope → Prop) : Prop where
  /-- Looking at something changes nothing. -/
  look {α : Type} {m : Eval α} (h : ∀ env s, ∃ a, m env s = .done a s) : R m m
  /-- Evaluations raise evaluation faults. -/
  fault {α : Type} {f : Fault} (h : f.faultClass = .evaluation) :
    R (Eval.fault f : Eval α) (Eval.fault f)
  /-- Reading a word need not come to an end. -/
  readWord (value : Value) : R (Eval.readWord value) (Eval.readWord value)
  bind {α β : Type} {m m' : Eval α} {k k' : α → Eval β} (hm : R m m')
    (hk : ∀ a, R (k a) (k' a)) : R (m >>= k) (m' >>= k')
  holding {α : Type} {m m' : Eval α} (held : Held) (hm : R m m') :
    R (Eval.holding held m) (Eval.holding held m')
  stamp {α : Type} {m m' : Eval α} (p : Position) (hm : R m m') :
    R (Eval.stamp p m) (Eval.stamp p m')
  rescue {α : Type} {m m' : Eval α} {handler handler' : Fault → Eval α} (hm : R m m')
    (hhandler : ∀ f, R (handler f) (handler' f)) :
    R (Eval.rescue m handler) (Eval.rescue m' handler')
  checkpoint : R Eval.checkpoint Eval.checkpoint
  /-- A new frame is open. -/
  newChild {α : Type} {k k' : Scope → Eval α} (scope : Scope)
    (hk : ∀ inner, Open inner → R (k inner) (k' inner)) :
    R (Eval.newChild scope >>= k) (Eval.newChild scope >>= k')
  declare {scope : Scope} (hscope : Open scope) (name : String) (value : Value) :
    R (Eval.declare scope name value) (Eval.declare scope name value)
  /-- A missing member is declared in the frame of its instance, whether it is open or not. -/
  memberCell (name : String) (value : Value) :
    R (Evaluator.memberCell name value) (Evaluator.memberCell name value)
  updateCell {α : Type} {update : Value → Except Fault α × Value} (cell : CellId)
    (hupdate : ∀ value, FailsWith .evaluation (update value).1) :
    R (Eval.updateCell cell update) (Eval.updateCell cell update)
  setMethod (kind : Kind) (name : String) (callable : Callable) :
    R (Eval.setMethod kind name callable) (Eval.setMethod kind name callable)
  newIdentity : R (modifyHeap (·.newIdentity)) (modifyHeap (·.newIdentity))
  newTemplate (name : String) (body : Node) (scope : Scope) :
    R (modifyHeap (·.newStruct (.template name body scope)))
      (modifyHeap (·.newStruct (.template name body scope)))

/-- Where every scope is open to declarations, members are declared like all other names. -/
theorem Evaluator.memberCell_related {R : ∀ {α : Type}, Eval α → Eval α → Prop}
    (hlook : ∀ {α : Type} {m : Eval α}, (∀ env s, ∃ a, m env s = .done a s) → R m m)
    (hfault : ∀ {f : Fault}, f.faultClass = .evaluation →
      R (Eval.fault f : Eval CellId) (Eval.fault f))
    (hbind : ∀ {α : Type} {m : Eval α} {k : α → Eval CellId}, R m m → (∀ a, R (k a) (k a)) →
      R (m >>= k) (m >>= k))
    (hdeclare : ∀ scope name value,
      R (Eval.declare scope name value) (Eval.declare scope name value))
    (name : String) (value : Value) : R (memberCell name value) (memberCell name value) := by
  unfold memberCell
  split
  · refine hbind (hlook fun _ _ => ⟨_, rfl⟩) fun struct => ?_
    split
    · refine hbind (hlook fun _ _ => ⟨_, rfl⟩) fun found => ?_
      cases found with
      | some cell => exact hlook fun _ _ => ⟨cell, rfl⟩
      | none => exact hdeclare _ name .null
    · exact hfault rfl
  · exact hfault rfl

namespace Congruence

variable {R : ∀ {α : Type}, Eval α → Eval α → Prop} {Open : Scope → Prop}

/-- A mere value changes nothing. -/
theorem pure (hR : Congruence R Open) {α : Type} (a : α) : R (pure a) (pure a) :=
  hR.look fun _ _ => ⟨a, rfl⟩

/-- A plain computation raises evaluation faults if it raises any. -/
theorem ofExcept (hR : Congruence R Open) {α : Type} {x : Except Fault α}
    (hx : FailsWith .evaluation x) : R (ofExcept x) (ofExcept x) := by
  cases x with
  | ok a => exact hR.pure a
  | error f => exact hR.fault (hx f rfl)

/-- Looking at the heap changes nothing. -/
theorem inspect (hR : Congruence R Open) {α : Type} (look : Heap → α) :
    R (inspect look) (inspect look) :=
  hR.look fun _ _ => ⟨_, rfl⟩

/-- Looking at the phone table changes nothing. -/
theorem table (hR : Congruence R Open) : R Eval.table Eval.table :=
  hR.look fun _ _ => ⟨_, rfl⟩

/-- Asking whether something is alive changes nothing. -/
theorem isAlive (hR : Congruence R Open) (thing : Ref) : R (isAlive thing) (isAlive thing) :=
  hR.look fun _ _ => ⟨_, rfl⟩

/-- Dropping a value hands the relation on. -/
theorem discard (hR : Congruence R Open) {α : Type} {m m' : Eval α} (hm : R m m') :
    R (discard m) (discard m') :=
  hR.bind hm fun _ => hR.pure ()

/-- Going on with a value hands the relation on. -/
theorem andThen (hR : Congruence R Open) {m m' : Eval Flow} {k k' : Value → Eval Flow}
    (hm : R m m') (hk : ∀ v, R (k v) (k' v)) : R (andThen m k) (andThen m' k') := by
  refine hR.bind hm fun flow => ?_
  cases flow with
  | value v => exact hk v
  | returned v => exact hR.pure _
  | broken => exact hR.pure _

/-- In an open scope a name can be assigned to. -/
theorem assigned (hR : Congruence R Open) {scope : Scope} (hscope : Open scope) (p : Position)
    (name : String) (e : Evaluator) (creating : Bool) :
    R (e.placeOf scope creating (.leaf p (.name name)))
      (e.placeOf scope creating (.leaf p (.name name))) := by
  refine hR.bind (hR.inspect _) fun found => ?_
  cases found with
  | some cell => exact hR.pure _
  | none =>
    dsimp only
    split
    · exact hR.bind (hR.declare hscope name .null) fun _ => hR.pure _
    · exact hR.fault rfl

/-- Going on with a value that is held hands the relation on. -/
theorem holdThen (hR : Congruence R Open) {m m' : Eval Flow} {k k' : Value → Eval Flow}
    (hm : R m m') (hk : ∀ v, R (k v) (k' v)) : R (holdThen m k) (holdThen m' k') :=
  hR.andThen hm fun v => hR.holding (.value v) (hk v)

end Congruence

/-- Whether an expression is evaluated in place: it is no block, no loop and makes no instance. -/
def Node.isPlain : Node → Bool
  | sequence _ .block _ | repetition .. | iteration .. | define _ _ true _ | create .. => false
  | _ => true

/-- The parts of an expression that are evaluated in its own scope, not in a scope inside it and not
later. -/
def Node.partsHere : Node → List Node
  | sequence _ .block _ | lambda .. | define .. => []
  | iteration _ _ iterable _ => [iterable]
  | rescue _ body _ => [body]
  | node => node.parts

/-- The name that an expression declares in its own scope. -/
def Node.declared? : Node → Option String
  | leaf _ (.declare name) | define _ name _ _ => some name
  | _ => none

/-- The parts that are evaluated in the same scope are parts. -/
theorem Node.mem_parts_of_mem_partsHere {node part : Node} (h : part ∈ node.partsHere) :
    part ∈ node.parts := by
  unfold Node.partsHere at h
  split at h
  case h_4 =>
    rw [List.mem_singleton.mp h]
    exact List.mem_cons_self
  case h_5 =>
    rw [List.mem_singleton.mp h]
    exact List.mem_cons_self
  case h_6 => exact h
  all_goals cases h

namespace Evaluator

/-- A choice of the expressions that are fit for a scope: their declarations in this scope and their
assignments to names there are related to themselves, and so it is with their parts there. -/
structure Fitting (R : ∀ {α : Type}, Eval α → Eval α → Prop) (Fit : Scope → Node → Prop) :
    Prop where
  parts {scope : Scope} {node : Node} (hnode : Fit scope node) :
    ∀ part ∈ node.partsHere, Fit scope part
  declared {scope : Scope} {node : Node} (hnode : Fit scope node) {name : String}
    (hname : node.declared? = some name) (value : Value) :
    R (Eval.declare scope name value) (Eval.declare scope name value)
  assigned {scope : Scope} {p : Position} {name : String}
    (hnode : Fit scope (.leaf p (.name name))) (e : Evaluator) (creating : Bool) :
    R (e.placeOf scope creating (.leaf p (.name name)))
      (e.placeOf scope creating (.leaf p (.name name)))

/-- Two evaluators do related things one level deeper, with the expressions that are fit for their
scopes. -/
structure Related (R : ∀ {α : Type}, Eval α → Eval α → Prop) (Fit : Scope → Node → Prop)
    (e e' : Evaluator) : Prop extends Fitting R Fit where
  evaluate {scope : Scope} {node : Node} (hnode : Fit scope node) :
    R (e.evaluate node scope) (e'.evaluate node scope)
  invoke (callable : Callable) (arguments : List Argument) :
    R (e.invoke callable arguments) (e'.invoke callable arguments)
  /-- The text that the hook of an instance answers with. -/
  answer (callable : Callable) :
    R (do
        match ← e.call callable [] with
        | .text t => return t
        | other => Eval.holding (.value other) (e.text other))
      (do
        match ← e'.call callable [] with
        | .text t => return t
        | other => Eval.holding (.value other) (e'.text other))

namespace Related

variable {R : ∀ {α : Type}, Eval α → Eval α → Prop} {Open : Scope → Prop}
variable {Fit : Scope → Node → Prop} {e e' : Evaluator}

/-! ## Hooks -/

mutual

/-- The text of a value. -/
theorem textOf (hR : Congruence R Open) (he : Related R Fit e e') :
    ∀ value : Value, R (e.textOf value) (e'.textOf value)
  | .vector elements => by
    simp only [Evaluator.textOf]
    exact hR.bind (textsOf hR he elements) fun _ => hR.pure _
  | .dictionary entries => by
    simp only [Evaluator.textOf]
    exact hR.bind (entryTextsOf hR he entries) fun _ => hR.pure _
  | .struct id => by
    simp only [Evaluator.textOf]
    refine hR.bind (hR.inspect _) fun hook => ?_
    cases hook with
    | none => exact hR.inspect _
    | some callable => exact he.answer callable
  | .null | .bool _ | .number _ | .text _ | .matrix _ | .feature _ | .phone _ | .word _ | .rule _
  | .function _ | .task _ => by
    simp only [Evaluator.textOf]
    exact hR.inspect _

/-- The texts of several values. -/
theorem textsOf (hR : Congruence R Open) (he : Related R Fit e e') :
    ∀ values : List Value, R (e.textsOf values) (e'.textsOf values)
  | [] => hR.pure []
  | value :: rest => by
    simp only [Evaluator.textsOf]
    exact hR.bind (textOf hR he value) fun _ => hR.bind (textsOf hR he rest) fun _ => hR.pure _

/-- The texts of the entries of a dictionary. -/
theorem entryTextsOf (hR : Congruence R Open) (he : Related R Fit e e') :
    ∀ entries : List (String × Value), R (e.entryTextsOf entries) (e'.entryTextsOf entries)
  | [] => hR.pure []
  | (key, value) :: rest => by
    simp only [Evaluator.entryTextsOf]
    exact hR.bind (textOf hR he value) fun _ =>
      hR.bind (entryTextsOf hR he rest) fun _ => hR.pure _

end

mutual

/-- Whether two values are equal. -/
theorem equals (hR : Congruence R Open) (he : Related R Fit e e') :
    ∀ a b : Value, R (e.equals a b) (e'.equals a b)
  | .struct id, other => by
    simp only [Evaluator.equals]
    refine hR.bind (hR.inspect _) fun hook => ?_
    cases hook with
    | none => exact hR.pure _
    | some callable =>
      refine hR.bind (he.invoke callable _) fun answer => ?_
      exact hR.ofExcept (answer.failsWith_asBool _)
  | .vector as, .vector bs => by
    simp only [Evaluator.equals]
    split
    · exact equalsAll hR he as bs
    · exact hR.pure _
  | .vector _, .null | .vector _, .bool _ | .vector _, .number _ | .vector _, .text _
  | .vector _, .dictionary _ | .vector _, .matrix _ | .vector _, .feature _ | .vector _, .phone _
  | .vector _, .word _ | .vector _, .rule _ | .vector _, .function _ | .vector _, .struct _
  | .vector _, .task _ => by
    simp only [Evaluator.equals]
    exact hR.pure _
  | .null, _ | .bool _, _ | .number _, _ | .text _, _ | .dictionary _, _ | .matrix _, _
  | .feature _, _ | .phone _, _ | .word _, _ | .rule _, _ | .function _, _ | .task _, _ => by
    simp only [Evaluator.equals]
    exact hR.pure _

/-- Whether the values of two lists are equal one by one. -/
theorem equalsAll (hR : Congruence R Open) (he : Related R Fit e e') :
    ∀ as bs : List Value, R (e.equalsAll as bs) (e'.equalsAll as bs)
  | [], _ => by
    simp only [Evaluator.equalsAll]
    exact hR.pure _
  | _ :: _, [] => by
    simp only [Evaluator.equalsAll]
    exact hR.pure _
  | a :: as, b :: bs => by
    simp only [Evaluator.equalsAll]
    refine hR.bind (equals hR he a b) fun same => ?_
    split
    · exact equalsAll hR he as bs
    · exact hR.pure _

end

/-- The key of a value in a dictionary. -/
theorem keyOf (hR : Congruence R Open) (he : Related R Fit e e') (value : Value) :
    R (e.keyOf value) (e'.keyOf value) := by
  unfold Evaluator.keyOf
  split
  · refine hR.bind (hR.inspect _) fun hook => ?_
    cases hook with
    | none => exact textOf hR he _
    | some callable =>
      exact hR.bind (he.invoke callable []) fun answer => hR.holding _ (textOf hR he answer)
  · exact textOf hR he _

/-- The length of a value. -/
theorem lengthOf (hR : Congruence R Open) (he : Related R Fit e e') (value : Value) :
    R (e.lengthOf value) (e'.lengthOf value) := by
  unfold Evaluator.lengthOf
  split
  · refine hR.bind (hR.inspect _) fun hook => ?_
    cases hook with
    | none => exact hR.fault rfl
    | some callable => exact he.invoke callable []
  · exact hR.bind (hR.ofExcept (Value.failsWith_size _)) fun _ => hR.pure _

/-- The part of a value at an index. -/
theorem elementOf (hR : Congruence R Open) (he : Related R Fit e e') (value index : Value) :
    R (e.elementOf value index) (e'.elementOf value index) := by
  unfold Evaluator.elementOf
  split
  · refine hR.bind (hR.inspect _) fun hook => ?_
    cases hook with
    | none => exact hR.fault rfl
    | some callable => exact he.invoke callable _
  · exact hR.bind (hR.holding _ (keyOf hR he index)) fun _ => hR.pure _
  · exact hR.bind hR.table fun table => hR.ofExcept (Value.failsWith_part table _ index)

/-! ## Operators -/

/-- An operator applied to two values. -/
theorem binaryValue (hR : Congruence R Open) (he : Related R Fit e e') (operator : Operator)
    (a b : Value) : R (e.binaryValue operator a b) (e'.binaryValue operator a b) := by
  unfold Evaluator.binaryValue
  split
  · next f _ hf => exact hR.ofExcept (Value.failsWith_arithmetic hf a b)
  · exact hR.ofExcept (Value.failsWith_compare _ a b)
  · split
    · exact hR.bind (equals hR he a b) fun _ => hR.pure _
    · exact hR.bind (equals hR he a b) fun _ => hR.pure _
    · unfold rangeOf
      split
      · refine hR.bind (hR.ofExcept (Value.failsWith_range _ _)) fun elements => ?_
        dsimp only
        split
        · exact hR.pure _
        · exact hR.bind hR.checkpoint fun _ => hR.pure _
      · exact hR.fault rfl
    · have htransform : R (do Eval.ofExcept (a.transform (← Eval.table) b))
          (do Eval.ofExcept (a.transform (← Eval.table) b)) :=
        hR.bind hR.table fun table => hR.ofExcept (a.failsWith_transform table b)
      unfold transformBy
      split
      · exact hR.bind hR.checkpoint fun _ => htransform
      · exact htransform
    · exact hR.ofExcept (a.failsWith_contrast b)
    · exact hR.ofExcept (a.failsWith_among b)
    · refine hR.fault ?_
      unfold misplacedBinary
      split <;> rfl

/-- An operator applied to one value. -/
theorem unaryValue (hR : Congruence R Open) (he : Related R Fit e e') (operator : Operator)
    (a : Value) : R (e.unaryValue operator a) (e'.unaryValue operator a) := by
  unfold Evaluator.unaryValue
  split
  · exact hR.bind (hR.ofExcept (a.failsWith_asBool _)) fun _ => hR.pure _
  · exact hR.ofExcept ((a.failsWith_asNumber _).bind fun _ => Value.failsWith_finite _ _)
  · exact hR.bind (hR.ofExcept (a.failsWith_asNumber _)) fun _ => hR.pure _
  · exact lengthOf hR he a
  · exact hR.bind (textOf hR he a) fun _ => hR.pure _
  · exact hR.bind (hR.ofExcept a.failsWith_numberOf) fun _ => hR.pure _
  · exact hR.bind (hR.ofExcept (a.failsWith_elements _)) fun _ => hR.pure _
  · exact hR.bind (hR.readWord a) fun _ => hR.pure _
  · refine hR.bind hR.table fun table => ?_
    exact hR.bind (hR.ofExcept (a.failsWith_matrixFrom table)) fun _ => hR.pure _
  · exact hR.bind (hR.ofExcept (a.failsWith_phonesOf _)) fun _ => hR.pure _
  · exact hR.pure _
  · refine hR.fault ?_
    unfold misplacedUnary
    split <;> rfl

/-! ## Assignments -/

/-- The kind that an expression names. -/
theorem typeName? (hR : Congruence R Open) (node : Node) (scope : Scope) :
    R (Evaluator.typeName? node scope) (Evaluator.typeName? node scope) := by
  unfold Evaluator.typeName?
  split
  · exact hR.inspect _
  · exact hR.pure _

/-- The place that an expression stands for. -/
theorem placeOf (hR : Congruence R Open) (he : Related R Fit e e') {scope : Scope}
    (creating : Bool) {target : Node} (htarget : Fit scope target) :
    R (e.placeOf scope creating target) (e'.placeOf scope creating target) := by
  induction creating, target using Evaluator.placeOf.induct with
  | case1 creating position name => exact he.assigned htarget e creating
  | case2 creating position name =>
    exact hR.bind (he.declared htarget rfl .null) fun _ => hR.pure _
  | case3 creating position container subscript ih =>
    have hparts := he.parts htarget
    simp only [Node.partsHere, Node.parts, List.forall_mem_cons] at hparts
    refine hR.bind (ih hparts.1) fun place => hR.holding _ (hR.holding _ ?_)
    refine hR.bind (he.evaluate hparts.2.1) fun flow => ?_
    exact hR.bind (hR.holding _ (keyOf hR he _)) fun _ => hR.pure _
  | case4 creating position object name =>
    have hparts := he.parts htarget
    simp only [Node.partsHere, Node.parts, List.forall_mem_cons] at hparts
    refine hR.bind (he.evaluate hparts.1) fun flow => ?_
    exact hR.bind (hR.memberCell name _) fun _ => hR.pure _
  | case5 target creating hname hdeclare hindex hmember =>
    simp only [Evaluator.placeOf]
    exact hR.fault rfl

/-- Writing to the place that an expression stands for. -/
theorem writeTo (hR : Congruence R Open) (he : Related R Fit e e') (operator : Operator)
    {target : Node} {scope : Scope} (htarget : Fit scope target) (value : Value) :
    R (e.writeTo operator target value scope) (e'.writeTo operator target value scope) := by
  refine hR.bind (placeOf hR he _ htarget) fun place => ?_
  refine hR.bind (hR.updateCell place.cell fun current => ?_) fun _ => hR.pure _
  exact Value.failsWith_updateAt (operator.failsWith_updated value) place.path current

/-- An assignment. -/
theorem assign (hR : Congruence R Open) (he : Related R Fit e e') (operator : Operator)
    {target value : Node} {scope : Scope} (htarget : Fit scope target)
    (hvalue : Fit scope value) :
    R (e.assign operator target value scope) (e'.assign operator target value scope) := by
  refine hR.holdThen (he.evaluate hvalue) fun assigned => ?_
  split
  · refine hR.bind (typeName? hR _ scope) fun kind => ?_
    cases kind with
    | none => exact writeTo hR he operator htarget assigned
    | some kind =>
      dsimp only [registerMethod]
      split
      · exact hR.bind (hR.setMethod _ _ _) fun _ => hR.pure _
      · exact hR.fault rfl
  · exact writeTo hR he operator htarget assigned

/-! ## Members and calls -/

/-- The method of a kind of values. -/
theorem methodOf (hR : Congruence R Open) (kind : Kind) (name : String) :
    R (Evaluator.methodOf kind name) (Evaluator.methodOf kind name) := by
  refine hR.bind (hR.look fun _ _ => ⟨_, rfl⟩) fun method => ?_
  cases method with
  | none => exact hR.fault rfl
  | some callable => exact hR.pure _

/-- The value of a member of an instance. -/
theorem memberOf (hR : Congruence R Open) (id : StructId) (name : String) :
    R (Evaluator.memberOf id name) (Evaluator.memberOf id name) := by
  refine hR.bind (hR.inspect _) fun struct => ?_
  split
  · refine hR.bind (hR.inspect _) fun found => ?_
    cases found with
    | none => exact hR.fault rfl
    | some value => exact hR.pure _
  · exact hR.fault rfl

/-- The access to a member. -/
theorem member (hR : Congruence R Open) (he : Related R Fit e e') {object : Node}
    {scope : Scope} (hobject : Fit scope object) (name : String) :
    R (e.member object name scope) (e'.member object name scope) := by
  refine hR.bind (typeName? hR object scope) fun kind => ?_
  cases kind with
  | some kind => exact hR.bind (methodOf hR kind name) fun _ => hR.pure _
  | none =>
    refine hR.andThen (he.evaluate hobject) fun value => ?_
    split
    · exact hR.bind (memberOf hR _ name) fun _ => hR.pure _
    · exact hR.bind (methodOf hR _ name) fun _ => hR.pure _

/-- An argument of a call. -/
theorem argument (hR : Congruence R Open) (he : Related R Fit e e') {node : Node}
    {scope : Scope} (hnode : Fit scope node) :
    R (e.argument node scope) (e'.argument node scope) := by
  unfold Evaluator.argument
  dsimp only
  split
  all_goals
    refine hR.bind (hR.look fun _ _ => ⟨_, rfl⟩) fun cell => ?_
    cases cell with
    | some cell => exact hR.bind (hR.inspect _) fun _ => hR.pure _
    | none => exact hR.bind (he.evaluate hnode) fun _ => hR.pure _

/-- The arguments of a call. -/
theorem arguments (hR : Congruence R Open) (he : Related R Fit e e') {scope : Scope}
    (collected : List Argument) {nodes : List Node} (hnodes : ∀ node ∈ nodes, Fit scope node) :
    R (e.arguments scope collected nodes) (e'.arguments scope collected nodes) := by
  induction nodes generalizing collected with
  | nil => exact hR.pure _
  | cons node rest ih =>
    rw [List.forall_mem_cons] at hnodes
    refine hR.bind (hR.holding _ (argument hR he hnodes.1)) fun next => ?_
    exact ih _ hnodes.2

/-- A call of a value. -/
theorem callValue (hR : Congruence R Open) (he : Related R Fit e e') (function : Value)
    (leading : List Argument) {nodes : List Node} {scope : Scope}
    (hnodes : ∀ node ∈ nodes, Fit scope node) :
    R (e.callValue function leading nodes scope) (e'.callValue function leading nodes scope) := by
  refine hR.holding _ (hR.bind (arguments hR he leading hnodes) fun arguments => ?_)
  split
  · exact hR.bind (he.invoke _ arguments) fun _ => hR.pure _
  · exact hR.fault rfl

/-- A call. -/
theorem callNode (hR : Congruence R Open) (he : Related R Fit e e') {callee : Node}
    {scope : Scope} (hcallee : Fit scope callee) {nodes : List Node}
    (hnodes : ∀ node ∈ nodes, Fit scope node) :
    R (e.callNode callee nodes scope) (e'.callNode callee nodes scope) := by
  unfold Evaluator.callNode
  split
  · have hparts := he.parts hcallee
    simp only [Node.partsHere, Node.parts, List.forall_mem_cons] at hparts
    refine hR.bind (typeName? hR _ scope) fun kind => ?_
    cases kind with
    | some kind =>
      exact hR.bind (methodOf hR kind _) fun method => callValue hR he method [] hnodes
    | none =>
      refine hR.bind (argument hR he hparts.1) fun receiver => ?_
      split
      · refine hR.bind (memberOf hR _ _) fun method => ?_
        exact hR.holding _ (callValue hR he method [] hnodes)
      · refine hR.bind (methodOf hR _ _) fun method => ?_
        exact callValue hR he method [receiver] hnodes
  · exact hR.andThen (he.evaluate hcallee) fun function =>
      callValue hR he function [] hnodes

/-! ## Expressions -/

/-- The value of a name. -/
theorem nameValue (hR : Congruence R Open) (scope : Scope) (name : String) :
    R (Evaluator.nameValue scope name) (Evaluator.nameValue scope name) := by
  have howner : R (nameValue.ownerOf scope name) (nameValue.ownerOf scope name) := by
    unfold nameValue.ownerOf
    split
    · refine hR.bind (hR.inspect _) fun owner => ?_
      cases owner with
      | none => exact hR.pure _
      | some id => exact hR.bind (hR.isAlive _) fun _ => hR.pure _
    · exact hR.pure _
  refine hR.bind (hR.inspect _) fun found => ?_
  cases found with
  | some value => exact hR.pure _
  | none =>
    refine hR.bind howner fun owner => ?_
    cases owner with
    | some id => exact hR.pure _
    | none =>
      dsimp only
      split
      · exact hR.pure _
      · exact hR.fault rfl

/-- An operand without parts. -/
theorem leaf (hR : Congruence R Open) {scope : Scope} (p : Position) (operand : Leaf)
    (hdeclared : ∀ name value, (Node.leaf p operand).declared? = some name →
      R (Eval.declare scope name value) (Eval.declare scope name value)) :
    R (Evaluator.leaf scope operand) (Evaluator.leaf scope operand) := by
  cases operand with
  | name name => exact hR.bind (nameValue hR scope name) fun _ => hR.pure _
  | declare name =>
    exact hR.bind (hR.discard (hdeclared name .null rfl)) fun _ => hR.pure _
  | _ => exact hR.pure _

/-- Expressions from left to right. -/
theorem collect (hR : Congruence R Open) (he : Related R Fit e e') {scope : Scope}
    {finish : List Value → Eval Flow} (hfinish : ∀ values, R (finish values) (finish values))
    (collected : List Value) {nodes : List Node} (hnodes : ∀ node ∈ nodes, Fit scope node) :
    R (e.collect scope finish collected nodes) (e'.collect scope finish collected nodes) := by
  induction nodes generalizing collected with
  | nil => exact hfinish _
  | cons node rest ih =>
    rw [List.forall_mem_cons] at hnodes
    refine hR.andThen (hR.holding _ (he.evaluate hnodes.1)) fun value => ?_
    exact ih _ hnodes.2

/-- An operator between two operands. -/
theorem binary (hR : Congruence R Open) (he : Related R Fit e e') (operator : Operator)
    {left right : Node} {scope : Scope} (hleft : Fit scope left) (hright : Fit scope right) :
    R (e.binary operator left right scope) (e'.binary operator left right scope) := by
  refine hR.holdThen (he.evaluate hleft) fun a => ?_
  split
  · refine hR.bind (hR.ofExcept (a.failsWith_asBool _)) fun holds => ?_
    split
    · refine hR.andThen (he.evaluate hright) fun b => ?_
      exact hR.bind (hR.ofExcept (b.failsWith_asBool _)) fun _ => hR.pure _
    · exact hR.pure _
  · refine hR.bind (hR.ofExcept (a.failsWith_asBool _)) fun holds => ?_
    split
    · exact hR.pure _
    · refine hR.andThen (he.evaluate hright) fun b => ?_
      exact hR.bind (hR.ofExcept (b.failsWith_asBool _)) fun _ => hR.pure _
  · refine hR.holdThen (he.evaluate hright) fun b => ?_
    exact hR.bind (binaryValue hR he operator a b) fun _ => hR.pure _

/-- A condition and its branches. -/
theorem choose (hR : Congruence R Open) (he : Related R Fit e e')
    {condition consequence : Node} {scope : Scope} (hcondition : Fit scope condition)
    (hconsequence : Fit scope consequence) (alternative : Option Node)
    (halternative : ∀ node ∈ alternative, Fit scope node) :
    R (e.choose condition consequence alternative scope)
      (e'.choose condition consequence alternative scope) := by
  refine hR.andThen (he.evaluate hcondition) fun value => ?_
  refine hR.bind (hR.ofExcept (value.failsWith_asBool _)) fun holds => ?_
  split
  · exact he.evaluate hconsequence
  · cases alternative with
    | none => exact hR.pure _
    | some alternative => exact he.evaluate (halternative alternative rfl)

/-- A statement whose faults are handled. -/
theorem handled (hR : Congruence R Open) (he : Related R Fit e e') {body : Node} {scope : Scope}
    (hbody : Fit scope body) (handler : Option Node)
    (hhandler : ∀ node ∈ handler, ∀ inner, Open inner → Fit inner node) :
    R (e.handled body handler scope) (e'.handled body handler scope) := by
  refine hR.rescue (he.evaluate hbody) fun fault => ?_
  cases handler with
  | none => exact hR.pure _
  | some handler =>
    refine hR.newChild scope fun inner hinner => ?_
    refine hR.bind (hR.discard (hR.declare hinner _ _)) fun _ => ?_
    exact hR.holding _ (he.evaluate (hhandler handler rfl inner hinner))

/-- The parts of a rule. -/
theorem ruleValue (hR : Congruence R Open) (he : Related R Fit e e') (kind : RuleKind)
    {search replacement left right : Node} {scope : Scope} (hsearch : Fit scope search)
    (hreplacement : Fit scope replacement) (hleft : Fit scope left) (hright : Fit scope right) :
    R (e.ruleValue kind search replacement left right scope)
      (e'.ruleValue kind search replacement left right scope) := by
  refine hR.holdThen (he.evaluate hsearch) fun search => ?_
  refine hR.holdThen (he.evaluate hreplacement) fun replacement => ?_
  refine hR.holdThen (he.evaluate hleft) fun left => ?_
  refine hR.andThen (he.evaluate hright) fun right => ?_
  refine hR.bind (hR.ofExcept ?_) fun _ => hR.pure _
  exact Value.failsWith_ruleOf kind search replacement left right

/-- An expression without parts, whatever lies one level deeper. -/
theorem expression_of_parts_eq_nil (hR : Congruence R Open) {node : Node} (hnode : node.parts = [])
    (hplain : node.isPlain) {scope : Scope} (hdeclared : ∀ name value,
      node.declared? = some name →
        R (Eval.declare scope name value) (Eval.declare scope name value)) :
    R (e.expression node scope) (e'.expression node scope) := by
  cases node with
  | leaf p operand => exact leaf hR p operand hdeclared
  | sequence p form elements =>
    obtain rfl : elements = [] := hnode
    cases form with
    | block => cases hplain
    | group | vector => exact hR.pure _
    | matrix =>
      refine hR.bind hR.table fun table => ?_
      exact hR.bind (hR.ofExcept (Value.failsWith_matrixOf table [])) fun _ => hR.pure _
  | _ => cases hnode

/-- An expression that is evaluated in place. Its parts are evaluated in its scope or in an open
one. -/
theorem expression_of_isPlain (hR : Congruence R Open) (he : Related R Fit e e')
    {node : Node} (hplain : node.isPlain) {scope : Scope}
    (hnode : ∀ part ∈ node.partsHere, Fit scope part)
    (hinside : ∀ part ∈ node.parts, ∀ inner, Open inner → Fit inner part)
    (hdeclared : ∀ name value, node.declared? = some name →
      R (Eval.declare scope name value) (Eval.declare scope name value)) :
    R (e.expression node scope) (e'.expression node scope) := by
  cases node with
  | leaf p operand => exact leaf hR p operand hdeclared
  | sequence p form elements =>
    cases form with
    | block => cases hplain
    | group | vector => exact collect hR he (fun _ => hR.pure _) [] hnode
    | matrix =>
      refine collect hR he (fun values => ?_) [] hnode
      refine hR.bind hR.table fun table => ?_
      exact hR.bind (hR.ofExcept (Value.failsWith_matrixOf table values)) fun _ => hR.pure _
  | unary p operator operand =>
    simp only [Node.partsHere, Node.parts, List.forall_mem_cons] at hnode
    refine hR.holdThen (he.evaluate hnode.1) fun value => ?_
    exact hR.bind (unaryValue hR he operator value) fun _ => hR.pure _
  | binary p operator left right =>
    simp only [Node.partsHere, Node.parts, List.forall_mem_cons] at hnode
    exact binary hR he operator hnode.1 hnode.2.1
  | assign p operator target value =>
    simp only [Node.partsHere, Node.parts, List.forall_mem_cons] at hnode
    exact assign hR he operator hnode.1 hnode.2.1
  | member p object name =>
    simp only [Node.partsHere, Node.parts, List.forall_mem_cons] at hnode
    exact member hR he hnode.1 name
  | index p target subscript =>
    simp only [Node.partsHere, Node.parts, List.forall_mem_cons] at hnode
    refine hR.holdThen (he.evaluate hnode.1) fun value => ?_
    refine hR.andThen (he.evaluate hnode.2.1) fun index => ?_
    exact hR.bind (elementOf hR he value index) fun _ => hR.pure _
  | call p callee arguments =>
    simp only [Node.partsHere, Node.parts, List.forall_mem_cons] at hnode
    exact callNode hR he hnode.1 hnode.2
  | lambda p parameters body => exact hR.bind hR.newIdentity fun _ => hR.pure _
  | branch p condition consequence =>
    simp only [Node.partsHere, Node.parts, List.forall_mem_cons] at hnode
    exact choose hR he hnode.1 hnode.2.1 none (by simp)
  | choice p condition consequence alternative =>
    simp only [Node.partsHere, Node.parts, List.forall_mem_cons] at hnode
    exact choose hR he hnode.1 hnode.2.1 (some alternative) (by simpa using hnode.2.2.1)
  | repetition p condition body => cases hplain
  | iteration p name iterable body => cases hplain
  | attempt p body =>
    simp only [Node.partsHere, Node.parts, List.forall_mem_cons] at hnode
    exact handled hR he hnode.1 none (by simp)
  | rescue p body handler =>
    simp only [Node.partsHere, List.forall_mem_cons] at hnode
    simp only [Node.parts, List.forall_mem_cons] at hinside
    exact handled hR he hnode.1 (some handler) (by simpa using hinside.2.1)
  | define p name isStatic body =>
    cases isStatic with
    | true => cases hplain
    | false =>
      refine hR.bind (hR.newTemplate name body scope) fun id => hR.bind (hR.pure _) fun value => ?_
      exact hR.bind (hR.discard (hdeclared name value rfl)) fun _ => hR.pure _
  | create p template arguments => cases hplain
  | rule p kind search replacement left right =>
    simp only [Node.partsHere, Node.parts, List.forall_mem_cons] at hnode
    obtain ⟨hsearch, hreplacement, hleft, hright, -⟩ := hnode
    exact ruleValue hR he kind hsearch hreplacement hleft hright
  | result p value =>
    simp only [Node.partsHere, Node.parts, List.forall_mem_cons] at hnode
    exact hR.andThen (he.evaluate hnode.1) fun _ => hR.pure _
  | raise p message =>
    simp only [Node.partsHere, Node.parts, List.forall_mem_cons] at hnode
    refine hR.holdThen (he.evaluate hnode.1) fun message => ?_
    exact hR.bind (textOf hR he message) fun _ => hR.fault rfl

end Related

end Evaluator

end SoundLaw
