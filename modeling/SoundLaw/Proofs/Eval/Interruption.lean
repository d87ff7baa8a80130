import SoundLaw.Proofs.Eval.Congruence
import SoundLaw.Proofs.Eval.Endings
import SoundLaw.Proofs.Table.Reading

/-!
# Evaluations that are asked to stop

An evaluation that starts when somebody has asked it to stop goes on until it comes to a block, to a
round of a loop, to a call or to a construction, and there it fails as cancelled. So it is the
evaluation that gives up at these places, of which no function body, structure body or command is a
part, with giving up read as being cancelled. Giving up cannot be handled, and no more levels are
needed than there are expressions inside one another.

The readings of a transcription have no such place. They end when every base phone has a symbol.
-/

namespace SoundLaw

open Eval

variable {host : Host}

/-- Where every base phone has a symbol, it is known in the end whether a value spells a word. -/
theorem Value.isSome_wordOf {table : Table} (hsymbols : table.base? "" = none) (value : Value) :
    (value.wordOf table).isSome := by
  unfold wordOf
  split
  · rfl
  · exact Table.isSome_readWord (Table.isSome_readOn hsymbols _)
  · rfl

namespace Node

mutual

/-- How many expressions stand inside one another. -/
def height : Node → Nat
  | leaf .. => 1
  | sequence _ _ elements => heights elements + 1
  | unary _ _ operand => operand.height + 1
  | binary _ _ left right => max left.height right.height + 1
  | assign _ _ target value => max target.height value.height + 1
  | member _ object _ => object.height + 1
  | index _ target subscript => max target.height subscript.height + 1
  | call _ callee arguments => max callee.height (heights arguments) + 1
  | lambda _ _ body => body.height + 1
  | branch _ condition consequence => max condition.height consequence.height + 1
  | choice _ condition consequence alternative =>
    max condition.height (max consequence.height alternative.height) + 1
  | repetition _ condition body => max condition.height body.height + 1
  | iteration _ _ iterable body => max iterable.height body.height + 1
  | attempt _ body => body.height + 1
  | rescue _ body handler => max body.height handler.height + 1
  | define _ _ _ body => body.height + 1
  | create _ template arguments => max template.height (heights arguments) + 1
  | rule _ _ search replacement left right =>
    max search.height (max replacement.height (max left.height right.height)) + 1
  | result _ value => value.height + 1
  | raise _ message => message.height + 1

/-- The greatest height of several expressions. -/
def heights : List Node → Nat
  | [] => 0
  | node :: rest => max node.height (heights rest)

end

/-- The height of an expression is one more than the heights of its parts. -/
theorem height_eq (node : Node) : node.height = heights node.parts + 1 := by
  cases node <;> simp [height, heights, parts]

/-- Every expression has a height. -/
theorem height_pos (node : Node) : 0 < node.height := by
  rw [height_eq]
  exact Nat.succ_pos _

/-- Where an expression fits in there is one level at least. -/
theorem exists_eq_succ_of_height_le {node : Node} {depth : Nat} (h : node.height ≤ depth) :
    ∃ deeper, depth = deeper + 1 :=
  Nat.exists_eq_succ_of_ne_zero (Nat.ne_of_gt (Nat.lt_of_lt_of_le node.height_pos h))

/-- No expression is higher than the highest of several. -/
theorem height_le_heights {nodes : List Node} {node : Node} (h : node ∈ nodes) :
    node.height ≤ heights nodes := by
  induction nodes with
  | nil => cases h
  | cons first rest ih =>
    rw [heights]
    rcases List.mem_cons.mp h with rfl | h
    · exact Nat.le_max_left _ _
    · exact Nat.le_trans (ih h) (Nat.le_max_right _ _)

/-- A part of an expression is less high. -/
theorem height_lt_of_mem_parts {node part : Node} (h : part ∈ node.parts) :
    part.height < node.height := by
  rw [height_eq node]
  exact Nat.lt_succ_of_le (height_le_heights h)

end Node

namespace Evaluator

/-- Whether a value is a structure that is waiting to be instantiated. -/
def isTemplate : Value → Eval Bool
  | .struct id => inspect fun heap =>
    match heap.structs[id]? with
    | some (.template ..) => true
    | _ => false
  | _ => pure false

end Evaluator

/-- Evaluates an expression, at most so many levels deep, but gives up where a block, a round of a
loop, a call or a construction begins. -/
def upToArrival : Nat → Node → Scope → Eval Flow
  | 0, _, _ => exhausted
  | depth + 1, node, scope =>
    let e : Evaluator := ⟨depth, upToArrival depth, fun _ _ => exhausted, fun _ => exhausted⟩
    stamp node.position <|
      match node with
      | .sequence _ .block _ | .repetition .. | .define _ _ true _ => exhausted
      | .iteration _ _ iterable _ =>
        andThen (e.evaluate iterable scope) fun value => do
          match ← ofExcept (value.elements "iterate over") with
          | [] => return .value .null
          | _ :: _ => exhausted
      | .create _ template nodes =>
        holdThen (e.evaluate template scope) fun target => do
          let arguments ← e.arguments scope [] nodes
          if ← Evaluator.isTemplate target then exhausted
          else return .value (← e.instantiate target arguments)
      | other => e.expression other scope

namespace Result

variable {α : Type}

/-- The result of a computation that is cancelled where another one gives up. -/
def orCancelled : Result α → Result α
  | exhausted s => failed .cancelled s
  | other => other

/-- Being cancelled has no influence on the state. -/
theorem state_orCancelled (result : Result α) : result.orCancelled.state = result.state := by
  cases result <;> rfl

/-- A computation that is cancelled does not give up. -/
theorem orCancelled_ne_exhausted (result : Result α) (s : State) :
    result.orCancelled ≠ exhausted s := by
  cases result <;> exact nofun

end Result

namespace Eval

variable {α β : Type}

/-- Once it was asked to stop, a computation is cancelled exactly where another one gives up and
does the same as that one otherwise; the request stays and nothing is printed. This is about tables
in which every base phone has a symbol. -/
def CutShort (m m' : Eval α) : Prop :=
  ∀ env s, env.table.base? "" = none → s.isCancelled = true →
    m env s = (m' env s).orCancelled ∧ (m' env s).state.isCancelled = true ∧
      (m' env s).state.printed = s.printed

namespace CutShort

/-- A computation that looks at something. -/
theorem look {m : Eval α} (h : ∀ env s, ∃ a, m env s = .done a s) : CutShort m m := by
  intro env s hsymbols hs
  obtain ⟨a, ha⟩ := h env s
  rw [ha]
  exact ⟨rfl, hs, rfl⟩

/-- A change of the heap. -/
theorem modifyHeap (change : Heap → α × Heap) :
    CutShort (Eval.modifyHeap change) (Eval.modifyHeap change) :=
  fun _ _ _ hs => ⟨rfl, hs, rfl⟩

/-- Two computations after one another. -/
theorem bind {m m' : Eval α} {k k' : α → Eval β} (hm : CutShort m m')
    (hk : ∀ a, CutShort (k a) (k' a)) : CutShort (m >>= k) (m' >>= k') := by
  intro env s hsymbols hs
  obtain ⟨hresult, hflag, hprinted⟩ := hm env s hsymbols hs
  change Eval.bind m k env s = (Eval.bind m' k' env s).orCancelled ∧
    (Eval.bind m' k' env s).state.isCancelled = true ∧
    (Eval.bind m' k' env s).state.printed = s.printed
  unfold Eval.bind
  cases hend : m' env s with
  | done a s' =>
    rw [hend] at hresult hflag hprinted
    obtain ⟨hresult', hflag', hprinted'⟩ := hk a env s' hsymbols hflag
    rw [hresult]
    exact ⟨hresult', hflag', hprinted'.trans hprinted⟩
  | failed fault s' =>
    rw [hend] at hresult hflag hprinted
    rw [hresult]
    exact ⟨rfl, hflag, hprinted⟩
  | exhausted s' =>
    rw [hend] at hresult hflag hprinted
    rw [hresult]
    exact ⟨rfl, hflag, hprinted⟩

/-- A computation whose faults get a place; being cancelled has none. -/
theorem stamp {m m' : Eval α} (hm : CutShort m m') (p : Position) :
    CutShort (Eval.stamp p m) (Eval.stamp p m') := by
  intro env s hsymbols hs
  obtain ⟨hresult, hflag, hprinted⟩ := hm env s hsymbols hs
  unfold Eval.stamp
  cases hend : m' env s
  all_goals
    rw [hend] at hresult hflag hprinted
    rw [hresult]
    exact ⟨rfl, hflag, hprinted⟩

/-- A computation whose faults are handled; being cancelled is not. -/
theorem rescue {m m' : Eval α} {handler handler' : Fault → Eval α} (hm : CutShort m m')
    (hhandler : ∀ f, CutShort (handler f) (handler' f)) :
    CutShort (Eval.rescue m handler) (Eval.rescue m' handler') := by
  intro env s hsymbols hs
  obtain ⟨hresult, hflag, hprinted⟩ := hm env s hsymbols hs
  unfold Eval.rescue
  cases hend : m' env s with
  | done a s' =>
    rw [hend] at hresult hflag hprinted
    rw [hresult]
    exact ⟨rfl, hflag, hprinted⟩
  | failed fault s' =>
    rw [hend] at hresult hflag hprinted
    rw [hresult]
    dsimp only [Result.orCancelled]
    split
    · obtain ⟨hresult', hflag', hprinted'⟩ := hhandler fault env s' hsymbols hflag
      exact ⟨hresult', hflag', hprinted'.trans hprinted⟩
    · exact ⟨rfl, hflag, hprinted⟩
  | exhausted s' =>
    rw [hend] at hresult hflag hprinted
    rw [hresult]
    exact ⟨rfl, hflag, hprinted⟩

/-- An update of a variable. -/
theorem updateCell (cell : CellId) (update : Value → Except Fault α × Value) :
    CutShort (Eval.updateCell cell update) (Eval.updateCell cell update) := by
  refine bind (look fun _ _ => ⟨_, rfl⟩) fun isMutable => ?_
  split
  · refine bind (modifyHeap _) fun outcome => ?_
    cases outcome with
    | ok a => exact look fun _ _ => ⟨a, rfl⟩
    | error f => exact fun _ _ _ hs => ⟨rfl, hs, rfl⟩
  · exact fun _ _ _ hs => ⟨rfl, hs, rfl⟩

/-- The reading of a word ends. -/
theorem readWord (value : Value) : CutShort (Eval.readWord value) (Eval.readWord value) := by
  intro env s hsymbols hs
  obtain ⟨outcome, houtcome⟩ := Option.isSome_iff_exists.mp (value.isSome_wordOf hsymbols)
  unfold Eval.readWord
  rw [houtcome]
  cases outcome with
  | ok word => exact ⟨rfl, hs, rfl⟩
  | error f => exact ⟨rfl, hs, rfl⟩

/-- Whatever comes to a checkpoint is cancelled there. -/
theorem checkpoint_bind (k : Unit → Eval α) : CutShort (Eval.checkpoint >>= k) exhausted := by
  intro env s hsymbols hs
  refine ⟨?_, hs, rfl⟩
  change Eval.bind Eval.checkpoint k env s = _
  rw [Eval.bind, Eval.checkpoint, if_pos hs]
  rfl

/-- What follows a computation that is cancelled is not reached. -/
theorem bind_exhausted {m : Eval α} (hm : CutShort m exhausted) (k : α → Eval β) :
    CutShort (m >>= k) exhausted := by
  intro env s hsymbols hs
  refine ⟨?_, hs, rfl⟩
  change Eval.bind m k env s = _
  rw [Eval.bind, (hm env s hsymbols hs).1]
  rfl

/-- Being cut short is handed on from parts to the whole. -/
theorem congruence : Congruence CutShort (fun _ => True) where
  look := look
  fault _ := fun _ _ _ hs => ⟨rfl, hs, rfl⟩
  readWord := readWord
  bind := bind
  holding _ hm := fun _ s hsymbols hs => hm _ s hsymbols hs
  stamp p hm := hm.stamp p
  rescue := rescue
  checkpoint := by
    intro env s hsymbols hs
    rw [Eval.checkpoint, if_pos hs]
    exact ⟨rfl, hs, rfl⟩
  newChild _ hk := bind (modifyHeap _) fun inner => hk inner trivial
  declare _ _ _ := modifyHeap _
  memberCell := Evaluator.memberCell_related look (fun _ _ _ _ hs => ⟨rfl, hs, rfl⟩) bind
    fun _ _ _ => modifyHeap _
  updateCell cell _ := updateCell cell _
  setMethod _ _ _ := fun _ _ _ hs => ⟨rfl, hs, rfl⟩
  newIdentity := modifyHeap _
  newTemplate _ _ _ := modifyHeap _

end CutShort

end Eval

namespace Evaluator

/-- The means to evaluate what lies one level deeper, up to the next arrival. -/
def arriving (depth : Nat) : Evaluator :=
  ⟨depth, upToArrival depth, fun _ _ => exhausted, fun _ => exhausted⟩

/-- An expression that is evaluated in place is evaluated as ever. -/
theorem upToArrival_of_isPlain {node : Node} (hplain : node.isPlain) (depth : Nat)
    (scope : Scope) :
    upToArrival (depth + 1) node scope =
      stamp node.position ((arriving depth).expression node scope) := by
  unfold Node.isPlain at hplain
  split at hplain
  case h_6 =>
    rw [upToArrival]
    · rfl
    all_goals assumption
  all_goals cases hplain

/-- A construction is cancelled. -/
theorem construct_cutShort (e : Evaluator) (name : String) (body : Node) (scope : Scope)
    (isStatic : Bool) (arguments : List Argument) :
    CutShort (e.construct name body scope isStatic arguments) exhausted :=
  .checkpoint_bind _

/-- A call is cancelled. -/
theorem invoke_cutShort (depth : Nat) (callable : Callable) (arguments : List Argument) :
    CutShort (SoundLaw.invoke host (depth + 1) callable arguments) exhausted :=
  .checkpoint_bind _

/-- With a level to spare for calls, evaluators are related when they do related things with
expressions. -/
theorem related_arriving {depth : Nat}
    (ih : ∀ node scope, node.height ≤ depth + 1 →
      CutShort (SoundLaw.evaluate host (depth + 1) node scope)
        (upToArrival (depth + 1) node scope)) :
    Related CutShort (fun _ node => node.height ≤ depth + 1) (within host (depth + 1))
      (arriving (depth + 1)) where
  evaluate hnode := ih _ _ hnode
  invoke := invoke_cutShort depth
  answer callable := CutShort.bind_exhausted (invoke_cutShort depth callable []) _
  parts hnode part hpart := by
    have hlower := Node.height_lt_of_mem_parts (Node.mem_parts_of_mem_partsHere hpart)
    exact Nat.le_trans (Nat.le_of_lt hlower) hnode
  declared _ _ _ _ := CutShort.modifyHeap _
  assigned _ e creating := CutShort.congruence.assigned trivial _ _ e creating

/-- Making an instance is cancelled unless there is nothing to be instantiated. -/
theorem instantiate_cutShort (e e' : Evaluator) (target : Value) (arguments : List Argument) :
    CutShort (do return Flow.value (← e.instantiate target arguments))
      (do
        if ← isTemplate target then exhausted
        else return .value (← e'.instantiate target arguments)) := by
  cases target with
  | struct id =>
    intro env s hsymbols hs
    have hconstruct (name : String) (body : Node) (scope : Scope) :=
      CutShort.bind_exhausted (construct_cutShort e name body scope false arguments)
        (fun value => pure (Flow.value value)) env s hsymbols hs
    rcases hstruct : s.heap.structs[id]? with
      _ | ⟨name, body, scope⟩ | ⟨name, scope, hooks, _ | _⟩
    case some.template =>
      simpa [instantiate, isTemplate, bind, Eval.bind, inspect, hstruct] using
        hconstruct name body scope
    all_goals
      simp [instantiate, isTemplate, bind, Eval.bind, inspect, hstruct, fault, Result.orCancelled,
        Result.state, hs]
  | _ => exact fun _ _ _ hs => ⟨rfl, hs, rfl⟩

end Evaluator

open Evaluator

/-- An evaluation that was asked to stop is cancelled where the one that gives up does so. -/
theorem evaluate_cutShort {depth : Nat} {node : Node} (hdepth : node.height ≤ depth)
    (scope : Scope) :
    CutShort (evaluate host depth node scope) (upToArrival depth node scope) := by
  induction depth generalizing node scope with
  | zero =>
    rw [Node.height_eq] at hdepth
    exact absurd hdepth (Nat.not_succ_le_zero _)
  | succ depth ih =>
    let e := Evaluator.within host depth
    have hparts : ∀ part ∈ node.parts, part.height ≤ depth := fun part hpart =>
      Nat.le_of_lt_succ (Nat.lt_of_lt_of_le (Node.height_lt_of_mem_parts hpart) hdepth)
    -- Where there is a part there is a level left for calls.
    have he : node.parts ≠ [] →
        Related CutShort (fun _ part => part.height ≤ depth) e (arriving depth) := by
      intro hsome
      cases depth with
      | zero =>
        obtain ⟨part, hpart⟩ := List.exists_mem_of_ne_nil _ hsome
        have hheight := hparts part hpart
        rw [Node.height_eq] at hheight
        exact absurd hheight (Nat.not_succ_le_zero _)
      | succ depth => exact related_arriving fun node scope hnode => ih hnode scope
    change CutShort (stamp node.position (e.expression node scope)) _
    by_cases hplain : node.isPlain
    · rw [upToArrival_of_isPlain hplain]
      refine CutShort.stamp ?_ _
      by_cases hnone : node.parts = []
      · exact Related.expression_of_parts_eq_nil CutShort.congruence hnone hplain
          fun _ _ _ => CutShort.modifyHeap _
      · exact (he hnone).expression_of_isPlain CutShort.congruence hplain
          (fun part hpart => hparts part (Node.mem_parts_of_mem_partsHere hpart))
          (fun part hpart _ _ => hparts part hpart) (fun _ _ _ => CutShort.modifyHeap _)
    unfold Node.isPlain at hplain
    split at hplain
    · exact CutShort.stamp (.checkpoint_bind _) _
    · next p condition body =>
      cases depth with
      | zero => exact absurd (hparts condition List.mem_cons_self) (by simp [Node.height_eq])
      | succ depth => exact CutShort.stamp (.checkpoint_bind _) _
    · next p name iterable body =>
      refine CutShort.stamp (CutShort.congruence.andThen ?_ fun value => ?_) _
      · exact (he (List.cons_ne_nil _ _)).evaluate (hparts iterable List.mem_cons_self)
      · have helements := CutShort.congruence.ofExcept (value.failsWith_elements "iterate over")
        refine CutShort.bind helements fun items => ?_
        cases items with
        | nil => exact CutShort.congruence.pure _
        | cons item rest => exact CutShort.checkpoint_bind _
    · next p name body =>
      exact CutShort.stamp (.bind_exhausted (construct_cutShort e name body scope true []) _) _
    · next p template nodes =>
      have he := he (List.cons_ne_nil _ _)
      rw [Node.parts, List.forall_mem_cons] at hparts
      refine CutShort.stamp (CutShort.congruence.holdThen ?_ fun target => ?_) _
      · exact he.evaluate hparts.1
      · refine CutShort.bind (he.arguments CutShort.congruence [] hparts.2) ?_
        exact fun arguments => instantiate_cutShort e (arriving depth) target arguments
    · exact absurd rfl hplain

/-- An evaluation that starts when it was already asked to stop needs no more levels than there are
expressions inside one another. It is the evaluation up to the first block, round of a loop, call or
construction, and when it comes to one it fails as cancelled, whatever handlers there are around. It
prints nothing, and the request stays. If all base phones have a symbol, the readings it starts end
as well. -/
theorem evaluate_cancelled {depth : Nat} {node : Node} (hdepth : node.height ≤ depth)
    (scope : Scope) {env : Env} (hsymbols : ∀ row ∈ env.table.bases, row.1 ≠ "") {s : State}
    (hs : s.isCancelled = true) :
    (∀ transcription, (env.table.readOn (.start transcription)).isSome) ∧
      evaluate host depth node scope env s =
        (upToArrival depth node scope env s).orCancelled ∧
      (∀ s', evaluate host depth node scope env s ≠ .exhausted s') ∧
      (evaluate host depth node scope env s).state.isCancelled = true ∧
      (evaluate host depth node scope env s).state.printed = s.printed := by
  have hreadings := (env.table.base?_eq_none_iff "").mpr hsymbols
  obtain ⟨hresult, hflag, hprinted⟩ := evaluate_cutShort hdepth scope env s hreadings hs
  refine ⟨fun transcription => Table.isSome_readOn hreadings _, hresult, ?_⟩
  rw [hresult, Result.state_orCancelled]
  exact ⟨Result.orCancelled_ne_exhausted _, hflag, hprinted⟩

/-- A block inside a statement whose faults are dropped is cancelled all the same. -/
theorem evaluate_cancelled_block :
    ∃ table, Table.ofText "SEGMENT\tvoice\nb\t+\n" = .ok table ∧
      evaluate [] 2 (.attempt .start (.sequence .start .block [])) ⟨0, []⟩ ⟨table, []⟩
          ⟨.empty, [], true, #[]⟩ = .failed .cancelled ⟨.empty, [], true, #[]⟩ := by
  let base : BaseTable := ⟨["voice"], .empty, [("b", ⟨[⟨"voice", .plus⟩]⟩)]⟩
  let env : Env := ⟨.ofBases base, []⟩
  let s : State := ⟨.empty, [], true, #[]⟩
  let block : Node := .attempt .start (.sequence .start .block [])
  have hsource : Table.ofText "SEGMENT\tvoice\nb\t+\n" = .ok env.table := by
    with_unfolding_all rfl
  have hsymbols : ∀ row ∈ env.table.bases, row.1 ≠ "" := by decide
  have hdepth : block.height ≤ 2 := by decide
  have hs : s.isCancelled = true := rfl
  exact ⟨_, hsource, (evaluate_cancelled hdepth ⟨0, []⟩ hsymbols hs).2.1⟩

/-- With a base phone that has no symbol, making a word of the letter a starts a reading without
end, also when the evaluation was asked to stop: no depth is enough for it. -/
theorem evaluate_wordify_endless :
    ∃ table, Table.ofText "SEGMENT\tvoice\n\t+\n" = .ok table ∧
      table.readOn (.start "a") = none ∧
      ∀ (host : Host) (depth : Nat),
        evaluate host depth (.unary .start .wordify (.leaf .start (.text "a"))) ⟨0, []⟩ ⟨table, []⟩
          ⟨.empty, [], true, #[]⟩ = .exhausted ⟨.empty, [], true, #[]⟩ := by
  let base : BaseTable := ⟨["voice"], .empty, [("", ⟨[⟨"voice", .plus⟩]⟩)]⟩
  have hsource : Table.ofText "SEGMENT\tvoice\n\t+\n" = .ok (.ofBases base) := by
    with_unfolding_all rfl
  have hendless : (Table.ofBases base).readOn (.start "a") = none :=
    (Table.stalls_letter hsource (by decide)).readOn .empty .plain []
  have hword (held : List Held) (s : State) :
      Eval.readWord (.text "a") ⟨.ofBases base, held⟩ s = .exhausted s := by
    rw [Eval.readWord, Value.wordOf, Table.readWord, hendless]
    rfl
  refine ⟨_, hsource, hendless, fun host depth => ?_⟩
  cases depth with
  | zero => rfl
  | succ depth =>
    cases depth with
    | zero => rfl
    | succ depth =>
      -- The operand has its value, and the reading comes next.
      have hunary (e : Evaluator) (held : List Held) (s : State) :
          e.unaryValue .wordify (.text "a") ⟨.ofBases base, held⟩ s = .exhausted s :=
        Eval.bind_of_exhausted (hword held s) _
      let e := Evaluator.within host (depth + 1)
      change Eval.stamp .start (e.unaryValue .wordify (.text "a") >>= fun value =>
        pure (Flow.value value)) ⟨.ofBases base, [.value (.text "a")]⟩ _ = _
      rw [Eval.stamp, Eval.bind_of_exhausted (hunary _ _ _)]

end SoundLaw
