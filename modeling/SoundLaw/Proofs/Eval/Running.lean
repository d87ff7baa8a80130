import SoundLaw.Proofs.Eval.Congruence

/-!
# Relations that whole runs respect

A congruence that also holds of what calls, commands and constructions do by themselves holds of
every evaluation in an open scope, whatever it calls and however deep it goes. In a scope that is
not open it holds of the expressions that are fit for it, if every expression is fit for an open
scope.

What the commands of a host do is not known. Each of them is relied on by itself: it has to keep to
the relation as long as what it asks the evaluator for does.
-/

namespace SoundLaw

open Eval

/-- A congruence that also holds of the elementary steps of calls, commands and constructions. -/
structure RunCongruence (R : ∀ {α : Type}, Eval α → Eval α → Prop) (Open : Scope → Prop) : Prop
    extends Congruence R Open where
  exhausted {α : Type} : R (Eval.exhausted : Eval α) Eval.exhausted
  say (line : String) : R (Eval.say line) (Eval.say line)
  cancel : R Eval.cancel Eval.cancel
  /-- What was started apart is related, and so is waiting for its outcome. -/
  spawn {m m' : Eval Value} (hm : R m m') :
    R (do
        let outcome ← Eval.outcome m
        return Value.task (← modifyHeap (·.newTask (.finished outcome))))
      (do
        let outcome ← Eval.outcome m'
        return Value.task (← modifyHeap (·.newTask (.finished outcome))))
  joinTask (arguments : List Value) : R (SoundLaw.joinTask arguments) (SoundLaw.joinTask arguments)
  /-- A reference parameter shares the variable of its argument. -/
  shareCell {scope : Scope} (hscope : Open scope) (name : String) (cell : CellId) :
    R (modifyHeap fun heap => ((), heap.bind scope.frame name cell))
      (modifyHeap fun heap => ((), heap.bind scope.frame name cell))
  declareCell {scope : Scope} (hscope : Open scope) (name : String) (cell : Cell) :
    R (modifyHeap fun heap => ((), (heap.declareCell scope.frame name cell).2))
      (modifyHeap fun heap => ((), (heap.declareCell scope.frame name cell).2))
  finishInstance (name : String) (isStatic : Bool) {scope : Scope} (hscope : Open scope) :
    R (Evaluator.finishInstance name isStatic scope) (Evaluator.finishInstance name isStatic scope)

/-- Whatever an evaluator is asked for has a property: evaluating in open scopes, calling and
finding texts. -/
structure Evaluator.Keeps (P : ∀ {α : Type}, Eval α → Prop) (Open : Scope → Prop)
    (e : Evaluator) : Prop where
  evaluate {scope : Scope} (hscope : Open scope) (node : Node) : P (e.evaluate node scope)
  invoke (callable : Callable) (arguments : List Argument) : P (e.invoke callable arguments)
  text (value : Value) : P (e.text value)

/-- What a command of a host does has a property if what it asks the evaluator for has it. -/
def HostCommand.Keeps (P : ∀ {α : Type}, Eval α → Prop) (Open : Scope → Prop)
    (command : HostCommand) : Prop :=
  ∀ e : Evaluator, e.Keeps P Open → ∀ call arguments, P (command.run call e arguments)

namespace Evaluator.Related

variable {R : ∀ {α : Type}, Eval α → Eval α → Prop} {Open : Scope → Prop}
variable {Fit : Scope → Node → Prop} {e e' : Evaluator} {host : Host}

/-! ## Commands and methods -/

/-- Whether one of some values is equal to another one. -/
theorem anyEquals (hR : RunCongruence R Open) (he : Related R Fit e e')
    (item : Value) (elements : List Value) :
    R (anyEquals e item elements) (SoundLaw.anyEquals e' item elements) := by
  induction elements with
  | nil => exact hR.pure _
  | cons element rest ih =>
    refine hR.bind (equals hR.toCongruence he element item) fun same => ?_
    split
    · exact hR.pure _
    · exact ih

/-- A call of the first of some values with the others. -/
theorem callFirst (hR : RunCongruence R Open) (he : Related R Fit e e') (callable : Callable)
    (rest : List Value) : R (callFirst e callable rest) (SoundLaw.callFirst e' callable rest) :=
  hR.holding _ (he.invoke callable _)

/-- A command. -/
theorem runCommand (hR : RunCongruence R Open) (he : Related R Fit e e')
    (command : Command) (arguments : List Value) :
    R (command.run e arguments) (command.run e' arguments) := by
  cases command with
  | print =>
    refine hR.bind (hR.holding _ (textsOf hR.toCongruence he arguments)) fun texts => ?_
    exact hR.bind (hR.say _) fun _ => hR.pure _
  | spawn =>
    dsimp only [Command.run]
    split
    · exact hR.spawn (he.callFirst hR _ _)
    · exact hR.fault rfl
    · exact hR.fault rfl
  | join => exact hR.joinTask arguments
  | dict =>
    dsimp only [Command.run]
    split
    · exact hR.pure _
    · exact hR.fault rfl
  | sqrt | floor | abs => exact hR.ofExcept (failsWith_numericCommand _ _ arguments)

/-- A method. -/
theorem runMethod (hR : RunCongruence R Open) (he : Related R Fit e e')
    (method : Method) (arguments : List Value) :
    R (method.run e arguments) (method.run e' arguments) := by
  have hone := hR.ofExcept (failsWith_oneArgument arguments)
  have htwo := hR.ofExcept (failsWith_twoArguments arguments)
  refine hR.holding _ ?_
  cases method with
  | length => exact hR.bind hone fun value => lengthOf hR.toCongruence he value
  | contains =>
    refine hR.bind htwo fun pair => ?_
    split
    · exact hR.bind (anyEquals hR he _ _) fun _ => hR.pure _
    · exact hR.pure _
    · exact hR.pure _
    · exact hR.pure _
    · exact hR.fault rfl
  | reverse =>
    refine hR.bind hone fun receiver => ?_
    split
    · exact hR.pure _
    · exact hR.pure _
    · exact hR.pure _
    · exact hR.fault rfl
  | join =>
    refine hR.bind htwo fun ⟨receiver, separator⟩ => ?_
    dsimp only
    split
    all_goals
      refine hR.bind (by first | exact hR.pure _ | exact hR.fault rfl) fun separator => ?_
      split
      · exact hR.bind (textsOf hR.toCongruence he _) fun _ => hR.pure _
      · exact hR.fault rfl
  | split =>
    refine hR.bind htwo fun pair => ?_
    split
    · exact hR.pure _
    · exact hR.pure _
    · exact hR.fault rfl
    · exact hR.fault rfl
  | apply =>
    refine hR.bind htwo fun pair => ?_
    split
    · exact hR.bind hR.table fun _ => hR.pure _
    · exact hR.bind hR.table fun _ => hR.pure _
    · exact hR.fault rfl
  | has =>
    refine hR.bind htwo fun pair => ?_
    split
    · exact hR.bind (keyOf hR.toCongruence he _) fun _ => hR.pure _
    · exact hR.fault rfl
  -- The other methods take one kind of values.
  | _ =>
    refine hR.bind hone fun receiver => ?_
    split
    · exact hR.pure _
    · exact hR.fault rfl

/-- A command of the host. -/
theorem runHost (hR : RunCongruence R Open) (hhost : ∀ command ∈ host, ∀ call arguments,
      R (command.run call e arguments) (command.run call e' arguments))
    (name : String) (index : Nat) (arguments : List Value) :
    R (host.run e name index arguments) (host.run e' name index arguments) := by
  unfold Host.run
  split
  · next command hcommand =>
    exact hR.bind hR.newIdentity fun call => hhost command (List.mem_of_getElem? hcommand) call _
  · exact hR.fault rfl

/-- A function that is not written in a script. -/
theorem runNative (hR : RunCongruence R Open) (he : Related R Fit e e')
    (hhost : ∀ command ∈ host, ∀ call arguments,
      R (command.run call e arguments) (command.run call e' arguments))
    (native : Native) (arguments : List Value) :
    R (native.run host e arguments) (native.run host e' arguments) := by
  cases native with
  | command command => exact runCommand hR he command arguments
  | host name index => exact runHost hR hhost name index arguments
  | method kind method => exact runMethod hR he method arguments

/-! ## Calls -/

/-- The scope that a function remembers. -/
theorem remembered (hR : RunCongruence R Open) (captured : Captured) :
    R (Evaluator.remembered captured) (Evaluator.remembered captured) := by
  cases captured with
  | held scope => exact hR.pure _
  | weak scope =>
    refine hR.bind (hR.isAlive _) fun alive => ?_
    split
    · exact hR.pure _
    · exact hR.fault rfl

/-- Parameters bound to arguments. -/
theorem bindParameters (hR : RunCongruence R Open) {scope : Scope} (hscope : Open scope)
    (parameters : List Parameter) (arguments : List Argument) :
    R (Evaluator.bindParameters scope parameters arguments)
      (Evaluator.bindParameters scope parameters arguments) := by
  induction parameters generalizing arguments with
  | nil => exact hR.pure _
  | cons parameter rest ih =>
    unfold Evaluator.bindParameters
    dsimp only
    split
    · exact hR.bind (hR.shareCell hscope _ _) fun _ => ih _
    · exact hR.bind (hR.declareCell hscope _ _) fun _ => ih _

/-- A call of a function of a script. -/
theorem invokeClosure (hR : RunCongruence R Open) (he : Related R Fit e e')
    (hopen : ∀ scope, Open scope → ∀ node, Fit scope node) (closure : Closure)
    (arguments : List Argument) :
    R (e.invokeClosure closure arguments) (e'.invokeClosure closure arguments) := by
  unfold Evaluator.invokeClosure
  dsimp only
  split
  · exact hR.fault rfl
  · refine hR.bind (hR.holding _ (remembered hR _)) fun captured => ?_
    refine hR.newChild captured fun scope hscope => ?_
    refine hR.bind (bindParameters hR hscope _ _) fun _ => ?_
    exact hR.bind (hR.holding _ (he.evaluate (hopen scope hscope _))) fun _ => hR.pure _

/-- A call. -/
theorem invokeCallable (hR : RunCongruence R Open) (he : Related R Fit e e')
    (hopen : ∀ scope, Open scope → ∀ node, Fit scope node)
    (hhost : ∀ command ∈ host, ∀ call arguments,
      R (command.run call e arguments) (command.run call e' arguments))
    (callable : Callable) (arguments : List Argument) :
    R (Evaluator.invokeCallable host e callable arguments)
      (Evaluator.invokeCallable host e' callable arguments) := by
  refine hR.bind hR.checkpoint fun _ => ?_
  cases callable with
  | native native => exact runNative hR he hhost native _
  | script closure => exact invokeClosure hR he hopen closure arguments

/-! ## Instances -/

/-- The body of a structure. -/
theorem bodyStatements (hR : RunCongruence R Open) (he : Related R Fit e e') {scope : Scope}
    (hscope : Open scope) (hfit : ∀ node, Fit scope node) (statements : List Node) :
    R (e.bodyStatements scope statements) (e'.bodyStatements scope statements) := by
  induction statements with
  | nil => exact hR.pure _
  | cons statement rest ih =>
    refine hR.bind ?_ fun _ => ih
    unfold bodyStatement
    split
    · refine hR.bind (he.evaluate (hfit _)) fun flow => ?_
      exact hR.discard (hR.declare hscope _ _)
    · exact hR.discard (he.evaluate (hfit _))

/-- The initializer of an instance. -/
theorem initialise (hR : RunCongruence R Open) (he : Related R Fit e e')
    (scope : Scope) (arguments : List Argument) :
    R (e.initialise scope arguments) (e'.initialise scope arguments) := by
  refine hR.bind (hR.inspect _) fun found => ?_
  split
  · exact hR.discard (hR.holding _ (he.invoke _ arguments))
  · split
    · exact hR.pure _
    · exact hR.fault rfl

/-- A construction. -/
theorem construct (hR : RunCongruence R Open) (he : Related R Fit e e')
    (hopen : ∀ scope, Open scope → ∀ node, Fit scope node) (name : String) (body : Node)
    (scope : Scope) (isStatic : Bool) (arguments : List Argument) :
    R (e.construct name body scope isStatic arguments)
      (e'.construct name body scope isStatic arguments) := by
  refine hR.bind hR.checkpoint fun _ => hR.newChild scope fun inner hinner => hR.holding _ ?_
  have hbody := bodyStatements hR he hinner (hopen inner hinner) body.bodyStatements
  refine hR.bind (hR.holding _ hbody) fun _ => ?_
  refine hR.bind (hR.finishInstance name isStatic hinner) fun id => ?_
  exact hR.bind (hR.holding _ (initialise hR he inner arguments)) fun _ => hR.pure _

/-- The definition of a structure. -/
theorem define (hR : RunCongruence R Open) (he : Related R Fit e e')
    (hopen : ∀ scope, Open scope → ∀ node, Fit scope node) {p : Position} {name : String}
    {isStatic : Bool} {body : Node} {scope : Scope}
    (hnode : Fit scope (.define p name isStatic body)) :
    R (e.define name isStatic body scope) (e'.define name isStatic body scope) := by
  unfold Evaluator.define
  dsimp only
  split
  · refine hR.bind (construct hR he hopen name body scope true []) fun value => ?_
    exact hR.bind (hR.discard (he.declared hnode rfl value)) fun _ => hR.pure _
  · refine hR.bind (hR.newTemplate name body scope) fun id => hR.bind (hR.pure _) fun value => ?_
    exact hR.bind (hR.discard (he.declared hnode rfl value)) fun _ => hR.pure _

/-- The creation of an instance. -/
theorem create (hR : RunCongruence R Open) (he : Related R Fit e e')
    (hopen : ∀ scope, Open scope → ∀ node, Fit scope node) {template : Node} {scope : Scope}
    (htemplate : Fit scope template) {nodes : List Node}
    (hnodes : ∀ node ∈ nodes, Fit scope node) :
    R (e.create template nodes scope) (e'.create template nodes scope) := by
  refine hR.holdThen (he.evaluate htemplate) fun target => ?_
  refine hR.bind (arguments hR.toCongruence he [] hnodes) fun arguments => ?_
  refine hR.bind ?_ fun _ => hR.pure _
  unfold instantiate
  split
  · refine hR.bind (hR.inspect _) fun struct => ?_
    split
    · exact construct hR he hopen _ _ _ false arguments
    · exact hR.fault rfl
    · exact hR.fault rfl
  · exact hR.fault rfl

/-! ## Loops -/

/-- A loop with a condition. -/
theorem repeatWhile (hR : RunCongruence R Open) (he : Related R Fit e e')
    {condition body : Node} {scope : Scope} (hcondition : Fit scope condition)
    (hbody : Fit scope body) (rounds : Nat) :
    R (e.repeatWhile condition body scope rounds) (e'.repeatWhile condition body scope rounds) := by
  induction rounds with
  | zero => exact hR.exhausted
  | succ rounds ih =>
    refine hR.bind hR.checkpoint fun _ => ?_
    refine hR.andThen (he.evaluate hcondition) fun value => ?_
    refine hR.bind (hR.ofExcept (value.failsWith_asBool _)) fun holds => ?_
    split
    · refine hR.bind (he.evaluate hbody) fun flow => ?_
      cases flow with
      | value value => exact ih
      | broken => exact hR.pure _
      | returned value => exact hR.pure _
    · exact hR.pure _

/-- A loop over values. -/
theorem forEach (hR : RunCongruence R Open) (he : Related R Fit e e')
    (hopen : ∀ scope, Open scope → ∀ node, Fit scope node) (name : String) (body : Node)
    (scope : Scope) (items : List Value) :
    R (e.forEach name body scope items) (e'.forEach name body scope items) := by
  induction items with
  | nil => exact hR.pure _
  | cons item rest ih =>
    refine hR.bind hR.checkpoint fun _ => hR.newChild scope fun inner hinner => ?_
    refine hR.bind (hR.discard (hR.declare hinner name item)) fun _ => ?_
    have hbody := he.evaluate (hopen inner hinner body)
    refine hR.bind (hR.holding _ (hR.holding _ hbody)) fun flow => ?_
    cases flow with
    | value value => exact ih
    | broken => exact hR.pure _
    | returned value => exact hR.pure _

/-! ## Evaluation -/

/-- An expression. -/
theorem expression (hR : RunCongruence R Open) (he : Related R Fit e e')
    (hopen : ∀ scope, Open scope → ∀ node, Fit scope node) (hrounds : e.rounds = e'.rounds)
    {node : Node} {scope : Scope} (hnode : Fit scope node) :
    R (e.expression node scope) (e'.expression node scope) := by
  have hparts := he.parts hnode
  by_cases hplain : node.isPlain
  · exact expression_of_isPlain hR.toCongruence he hplain hparts
      (fun part _ inner hinner => hopen inner hinner part)
      (fun _ value hname => he.declared hnode hname value)
  unfold Node.isPlain at hplain
  split at hplain
  · next p elements =>
    refine hR.bind hR.checkpoint fun _ => hR.newChild scope fun inner hinner => ?_
    refine hR.holding _ ?_
    exact collect hR.toCongruence he (fun _ => hR.pure _) [] fun part _ => hopen inner hinner part
  · next p condition body =>
    simp only [Node.partsHere, Node.parts, List.forall_mem_cons] at hparts
    change R (e.repeatWhile condition body scope e.rounds) (e'.repeatWhile _ _ _ e'.rounds)
    rw [hrounds]
    exact repeatWhile hR he hparts.1 hparts.2.1 e'.rounds
  · next p name iterable body =>
    simp only [Node.partsHere, List.forall_mem_cons] at hparts
    refine hR.andThen (he.evaluate hparts.1) fun value => ?_
    refine hR.bind (hR.ofExcept (value.failsWith_elements _)) fun items => ?_
    exact forEach hR he hopen name body scope items
  · next p name body => exact define hR he hopen hnode
  · next p template nodes =>
    simp only [Node.partsHere, Node.parts, List.forall_mem_cons] at hparts
    exact create hR he hopen hparts.1 hparts.2
  · exact absurd rfl hplain

/-- An evaluator that is related to itself keeps to the relation when it finds texts in a related
way. -/
theorem keeps (he : Related R Fit e e) (hopen : ∀ scope, Open scope → ∀ node, Fit scope node)
    (htext : ∀ value, R (e.text value) (e.text value)) : e.Keeps (fun m => R m m) Open where
  evaluate hscope node := he.evaluate (hopen _ hscope node)
  invoke := he.invoke
  text := htext

end Evaluator.Related

namespace RunCongruence

variable {R : ∀ {α : Type}, Eval α → Eval α → Prop} {Open : Scope → Prop} {host : Host}

/-- Every expression is fit for an open scope. -/
theorem fitting (hR : RunCongruence R Open) : Evaluator.Fitting R (fun scope _ => Open scope) where
  parts hscope _ _ := hscope
  declared hscope _ _ value := hR.declare hscope _ value
  assigned hscope e creating := hR.assigned hscope _ _ e creating

section Fit

variable {Fit : Scope → Node → Prop}

/-- Evaluators are related when they evaluate, call and ask for texts in related ways. -/
theorem related_of_text (hR : RunCongruence R Open) (hfit : Evaluator.Fitting R Fit)
    {e e' : Evaluator} (hevaluate : ∀ scope node, Fit scope node →
      R (e.evaluate node scope) (e'.evaluate node scope))
    (hinvoke : ∀ callable arguments,
      R (e.invoke callable arguments) (e'.invoke callable arguments))
    (htext : ∀ value, R (e.text value) (e'.text value)) : Evaluator.Related R Fit e e' where
  toFitting := hfit
  evaluate hnode := hevaluate _ _ hnode
  invoke := hinvoke
  answer callable := by
    refine hR.bind (hinvoke callable []) fun answer => ?_
    split
    · exact hR.pure _
    · exact hR.holding _ (htext _)

/-- Evaluating, calling and asking for a text are related to themselves, however deep they go. -/
theorem related_and_text (hR : RunCongruence R Open) (hfit : Evaluator.Fitting R Fit)
    (hopen : ∀ scope, Open scope → ∀ node, Fit scope node)
    (hhost : ∀ command ∈ host, command.Keeps (fun m => R m m) Open) (depth : Nat) :
    Evaluator.Related R Fit (.within host depth) (.within host depth) ∧
      ∀ value, R (SoundLaw.textWithin host depth value) (SoundLaw.textWithin host depth value) := by
  induction depth with
  | zero =>
    have htext : ∀ value, R (SoundLaw.textWithin host 0 value) (SoundLaw.textWithin host 0 value) :=
      fun _ => hR.exhausted
    refine ⟨hR.related_of_text hfit (fun _ _ _ => ?_) (fun _ _ => ?_) htext, htext⟩
    · exact hR.exhausted
    · exact hR.exhausted
  | succ depth ih =>
    obtain ⟨he, hdeeper⟩ := ih
    have hcommands : ∀ command ∈ host, ∀ call arguments,
        R (command.run call (.within host depth) arguments)
          (command.run call (.within host depth) arguments) :=
      fun command hcommand => hhost command hcommand _ (he.keeps hopen hdeeper)
    have htext := he.textOf hR.toCongruence
    refine ⟨hR.related_of_text hfit (fun _ node hnode => ?_) (fun callable arguments => ?_) htext,
      htext⟩
    · exact hR.stamp node.position (he.expression hR hopen rfl hnode)
    · exact he.invokeCallable hR hopen hcommands callable arguments

/-- The evaluator of any depth is related to itself. -/
theorem related (hR : RunCongruence R Open) (hfit : Evaluator.Fitting R Fit)
    (hopen : ∀ scope, Open scope → ∀ node, Fit scope node)
    (hhost : ∀ command ∈ host, command.Keeps (fun m => R m m) Open) (depth : Nat) :
    Evaluator.Related R Fit (.within host depth) (.within host depth) :=
  (hR.related_and_text hfit hopen hhost depth).1

/-- The evaluation of an expression that is fit for the scope is related to itself. -/
theorem evaluate_of_fit (hR : RunCongruence R Open) (hfit : Evaluator.Fitting R Fit)
    (hopen : ∀ scope, Open scope → ∀ node, Fit scope node)
    (hhost : ∀ command ∈ host, command.Keeps (fun m => R m m) Open) (depth : Nat) {node : Node}
    {scope : Scope} (hnode : Fit scope node) :
    R (evaluate host depth node scope) (evaluate host depth node scope) :=
  (hR.related hfit hopen hhost depth).evaluate hnode

/-- The evaluation of statements that are fit for the scope is related to itself. -/
theorem evaluateAll_of_fit (hR : RunCongruence R Open) (hfit : Evaluator.Fitting R Fit)
    (hopen : ∀ scope, Open scope → ∀ node, Fit scope node)
    (hhost : ∀ command ∈ host, command.Keeps (fun m => R m m) Open) (depth : Nat) {scope : Scope}
    (last : Value) {statements : List Node} (hstatements : ∀ node ∈ statements, Fit scope node) :
    R (evaluateAll host depth scope last statements)
      (evaluateAll host depth scope last statements) := by
  induction statements generalizing last with
  | nil => exact hR.pure _
  | cons statement rest ih =>
    rw [List.forall_mem_cons] at hstatements
    have hone := hR.evaluate_of_fit hfit hopen hhost depth hstatements.1
    refine hR.bind (hR.holding _ hone) fun flow => ?_
    cases flow with
    | value value => exact ih value hstatements.2
    | returned value => exact hR.pure _
    | broken => exact hR.pure _

end Fit

/-- Asking for a text is related to itself. -/
theorem textWithin (hR : RunCongruence R Open)
    (hhost : ∀ command ∈ host, command.Keeps (fun m => R m m) Open) (depth : Nat) (value : Value) :
    R (textWithin host depth value) (textWithin host depth value) :=
  (hR.related_and_text hR.fitting (fun _ hscope _ => hscope) hhost depth).2 value

/-- An evaluation in an open scope is related to itself. -/
theorem evaluate (hR : RunCongruence R Open)
    (hhost : ∀ command ∈ host, command.Keeps (fun m => R m m) Open) (depth : Nat) (node : Node)
    {scope : Scope} (hscope : Open scope) :
    R (evaluate host depth node scope) (evaluate host depth node scope) :=
  hR.evaluate_of_fit hR.fitting (fun _ hscope _ => hscope) hhost depth hscope

/-- The evaluation of statements in an open scope is related to itself. -/
theorem evaluateAll (hR : RunCongruence R Open)
    (hhost : ∀ command ∈ host, command.Keeps (fun m => R m m) Open) (depth : Nat) {scope : Scope}
    (hscope : Open scope) (last : Value) (statements : List Node) :
    R (evaluateAll host depth scope last statements)
      (evaluateAll host depth scope last statements) :=
  hR.evaluateAll_of_fit hR.fitting (fun _ hscope _ => hscope) hhost depth last fun _ _ => hscope

end RunCongruence

/-- The sample commands keep to every relation that whole runs respect. -/
theorem HostCommand.keeps_of_mem_samples {R : ∀ {α : Type}, Eval α → Eval α → Prop}
    {Open : Scope → Prop} (hR : RunCongruence R Open) {command : HostCommand}
    (hcommand : command ∈ samples) : command.Keeps (fun m => R m m) Open := by
  intro e hkeeps number arguments
  have he : Evaluator.Related R (fun scope _ => Open scope) e e :=
    hR.related_of_text hR.fitting (fun _ node hscope => hkeeps.evaluate hscope node) hkeeps.invoke
      hkeeps.text
  simp only [samples, List.mem_cons, List.not_mem_nil, or_false] at hcommand
  rcases hcommand with rfl | rfl | rfl | rfl | rfl
  · exact hR.bind (hR.ofExcept (Value.failsWith_asNumber _ _)) fun _ => hR.pure _
  · dsimp only [call]
    split
    · exact he.callFirst hR _ _
    · exact hR.fault rfl
    · exact hR.fault rfl
  · exact hR.holding _ (hR.bind (he.equals hR.toCongruence _ _) fun _ => hR.pure _)
  · exact hR.holding _ (hR.bind (he.keyOf hR.toCongruence _) fun _ => hR.pure _)
  · exact hR.bind hR.cancel fun _ => hR.pure _

end SoundLaw
