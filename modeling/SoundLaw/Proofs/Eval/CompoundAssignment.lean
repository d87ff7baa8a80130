import SoundLaw.Proofs.Eval.Reading

/-!
# Updating assignments

`t += e` and `t = t + e` come to the same, and so for the other operators. The short form finds the
place of `t` once and computes inside the value of the variable. The long form reads `t` as an
expression first and then finds its place anew. Each of them succeeds exactly if the operand has a
value, the path of the target leads somewhere and the arithmetic succeeds on what stands there, and
then both write the outcome to the same place.

The two forms differ where reading the target calls a method: that of an instance for its elements,
which the short form never asks for, or that of an index for its text, which the long form asks for
twice.
-/

namespace SoundLaw

open Eval

variable {host : Host}

/-- A variable is updated exactly if it may change, the path below it leads somewhere and the update
succeeds there. -/
theorem Eval.updateCell_eq_done_iff {cell : CellId} {update : Value → Except Fault Value}
    {path : List Step} {env : Env} {s s' : State} {written : Value} :
    updateCell cell (Value.updateAt update path) env s = .done written s' ↔
      s.heap.isMutable cell ∧ ∃ current, (s.heap.read cell).walk path = some current ∧
        update current = .ok written ∧
        s' = { s with heap := s.heap.put cell ((s.heap.read cell).replaceAt path written) } := by
  rw [updateCell, bind_of_done (m := inspect _) rfl]
  cases s.heap.isMutable cell with
  | false =>
    constructor
    · intro hdone
      cases hdone
    · rintro ⟨hmutable, -⟩
      cases hmutable
  | true =>
    rw [if_pos rfl]
    cases hupdate : Value.updateAt update path (s.heap.read cell) with
    | mk outcome value =>
      rw [bind_of_done (modifyHeap_eq_done ..), hupdate, ofExcept_eq_done_iff]
      constructor
      · rintro ⟨rfl, rfl⟩
        obtain ⟨current, hwalk, hcurrent, rfl⟩ := Value.updateAt_eq_ok_iff.mp hupdate
        exact ⟨rfl, current, hwalk, hcurrent, rfl⟩
      · rintro ⟨-, current, hwalk, hcurrent, rfl⟩
        rw [Value.updateAt_eq_ok_iff.mpr ⟨current, hwalk, hcurrent, rfl⟩] at hupdate
        cases hupdate
        exact ⟨rfl, rfl⟩

section Places

variable {e : Evaluator} {depth : Nat} {env : Env} {s s' : State} {scope : Scope} {target : Node}
  {cell : CellId} {path : List Step}

/-- While the place of a path is held, the living things are the same. -/
theorem Heap.Locates.worksIn (hlocates : s.heap.Locates scope target cell path)
    (h : WorksIn env s scope) (hliving : s.heap.LivingOperands (living env s) scope target) :
    let env' : Env :=
      { env with held := .values (path.map (·.index)) :: .cell cell :: env.held }
    WorksIn env' s scope ∧ living env' s = living env s := by
  obtain ⟨hcell, hpath⟩ := hlocates.living_place h hliving
  have hheld : ∀ ref ∈ (Held.cell cell).refs, living env s ref := fun ref href =>
    List.mem_singleton.mp href ▸ hcell
  have hheld' : ∀ ref ∈ (Held.values (path.map (·.index))).refs,
      living { env with held := .cell cell :: env.held } s ref := by
    rw [living_holding hheld]
    exact hpath
  exact ⟨(h.holding hheld).holding hheld', (living_holding hheld').trans (living_holding hheld)⟩

/-- The place of a path whose operands are living is found, and nothing changes. -/
theorem Heap.Locates.placeOf_eq (hlocates : s.heap.Locates scope target cell path)
    (h : WorksIn env s scope) (hsilent : s.heap.SilentIndices scope target)
    (hliving : s.heap.LivingOperands (living env s) scope target)
    (he : e.evaluate = evaluate host depth) (hdepth : 0 < depth) :
    e.placeOf scope false target env s = .done ⟨cell, path⟩ s := by
  induction hlocates with
  | name hlookup =>
    rw [Evaluator.placeOf, bind_of_done (m := inspect _) rfl, hlookup]
    rfl
  | @member p object name template id inner hooks isStatic cell hdenotes hstruct hcell =>
    have hobject : e.evaluate object scope env s = .done (.value (.struct id)) s := by
      rw [he]
      exact (h.evaluate_operand_eq_done_iff host hdenotes.isOperand hdepth).mpr
        ⟨rfl, _, rfl, hdenotes, hliving object List.mem_cons_self _ hdenotes⟩
    have hmember : Evaluator.memberCell name (.struct id) env s = .done cell s := by
      rw [Evaluator.memberCell, bind_of_done (m := inspect _) rfl, hstruct]
      dsimp only
      rw [bind_of_done (m := inspect _) rfl, hcell]
      rfl
    rw [Evaluator.placeOf, bind_of_done hobject, Flow.carried, bind_of_done hmember]
    rfl
  | @index p container subscript cell path index hcontainer hdenotes ih =>
    obtain ⟨hworks, hsame⟩ := hcontainer.worksIn h hliving.init
    rw [Evaluator.placeOf, bind_of_done (ih hsilent.init hliving.init), holding, holding]
    have hindex := (hworks.evaluate_operand_eq_done_iff host hdenotes.isOperand hdepth).mpr
      ⟨rfl, index, rfl, hdenotes, by
        rw [hsame]
        exact hliving.last _ hdenotes⟩
    rw [← he] at hindex
    have hkey : holding (.value index) (e.keyOf index)
        { env with held := .values (path.map (·.index)) :: .cell cell :: env.held } s =
          .done (index.render s.heap.describe) s :=
      Evaluator.keyOf_eq_render e _ (hsilent.last _ hdenotes)
    rw [bind_of_done hindex]
    dsimp only
    rw [Flow.carried, bind_of_done hkey]
    rfl

/-- If the place of a path is found, what its operands stand for is living. -/
theorem Heap.Locates.livingOperands (hlocates : s.heap.Locates scope target cell path)
    (h : WorksIn env s scope) (hsilent : s.heap.SilentIndices scope target)
    (he : e.evaluate = evaluate host depth) (hdepth : 0 < depth) {place : Place}
    (hdone : e.placeOf scope false target env s = .done place s') :
    s.heap.LivingOperands (living env s) scope target := by
  induction hlocates generalizing place s' with
  | name => exact fun operand hmem => absurd hmem List.not_mem_nil
  | @member p object name template id inner hooks isStatic cell hdenotes hstruct hcell =>
    rw [Evaluator.placeOf] at hdone
    obtain ⟨flow, s₁, hobject, -⟩ := bind_eq_done_iff.mp hdone
    rw [he] at hobject
    obtain ⟨rfl, value, rfl, hvalue, hrefs⟩ :=
      (h.evaluate_operand_eq_done_iff host hdenotes.isOperand hdepth).mp hobject
    intro operand hmem found hfound
    cases List.mem_singleton.mp hmem
    exact hvalue.unique hfound ▸ hrefs
  | @index p container subscript cell path index hcontainer hdenotes ih =>
    rw [Evaluator.placeOf] at hdone
    obtain ⟨place₁, s₁, hfirst, hrest⟩ := bind_eq_done_iff.mp hdone
    have hinit := ih hsilent.init hfirst
    rw [hcontainer.placeOf_eq h hsilent.init hinit he hdepth] at hfirst
    cases hfirst
    rw [holding, holding] at hrest
    obtain ⟨flow, s₂, hindex, -⟩ := bind_eq_done_iff.mp hrest
    obtain ⟨hworks, hsame⟩ := hcontainer.worksIn h hinit
    rw [he] at hindex
    obtain ⟨rfl, value, rfl, hvalue, hrefs⟩ :=
      (hworks.evaluate_operand_eq_done_iff host hdenotes.isOperand hdepth).mp hindex
    rw [hsame] at hrefs
    intro operand hmem found hfound
    rcases List.mem_append.mp hmem with hmem | hmem
    · exact hinit operand hmem found hfound
    · cases List.mem_singleton.mp hmem
      exact hvalue.unique hfound ▸ hrefs

/-- The place of a path that starts from a variable is searched for alike whether a missing name
would be declared or not. -/
theorem placeOf_of_root (hroot : ∀ name ∈ target.root?, (s.heap.lookup? scope name).isSome)
    (creating : Bool) :
    e.placeOf scope creating target env s = e.placeOf scope false target env s := by
  cases target with
  | leaf p operand =>
    cases operand with
    | name name =>
      obtain ⟨cell, hcell⟩ := Option.isSome_iff_exists.mp (hroot name rfl)
      rw [Evaluator.placeOf, Evaluator.placeOf, bind_of_done (m := inspect _) rfl,
        bind_of_done (m := inspect _) rfl, hcell]
    | _ => rfl
  | _ => rfl

end Places

/-- An update at the end of a path: what is written there, and the state afterwards. -/
inductive Updates (alive : Ref → Prop) (s : State) (scope : Scope) (target : Node)
    (update : Value → Except Fault Value) : Flow → State → Prop
  | intro {cell : CellId} {path : List Step} {current written : Value} :
    s.heap.Locates scope target cell path → s.heap.LivingOperands alive scope target →
      s.heap.isMutable cell → (s.heap.read cell).walk path = some current →
        update current = .ok written →
          Updates alive s scope target update (.value written)
            { s with heap := s.heap.put cell ((s.heap.read cell).replaceAt path written) }

section Assignments

variable {e : Evaluator} {depth : Nat} {env : Env} {s s' : State} {scope : Scope}
  {target value : Node} {flow : Flow}

/-- Literals and variables one level deeper are read without changing anything. -/
theorem readsOperands (he : e.evaluate = evaluate host depth) : e.ReadsOperands := by
  intro node hnode scope env s
  rw [he]
  exact evaluate_operand host depth hnode scope env s

/-- A write succeeds exactly if it updates what stands at the end of the path, unless it declares
the member that the path starts from. -/
theorem writeTo_eq_done_iff (h : WorksIn env s scope) (htarget : target.isPath)
    (hroot : ∀ name ∈ target.root?, (s.heap.lookup? scope name).isSome)
    (hsilent : s.heap.SilentIndices scope target) (he : e.evaluate = evaluate host depth)
    (hdepth : 0 < depth) {operator : Operator} {assigned : Value}
    (hmember : ∀ heap, s.heap.Supplements scope target heap →
      ∀ written, operator.updated assigned .null ≠ .ok written) :
    e.writeTo operator target assigned scope env s = .done flow s' ↔
      Updates (living env s) s scope target (operator.updated assigned) flow s' := by
  rw [Evaluator.writeTo, bind_eq_done_iff]
  constructor
  · rintro ⟨place, s₁, hplace, hrest⟩
    rw [placeOf_of_root hroot] at hplace
    obtain ⟨written, s₂, hupdate, hpure⟩ := bind_eq_done_iff.mp hrest
    cases hpure
    obtain ⟨hmutable, current, hwalk, hcurrent, rfl⟩ := updateCell_eq_done_iff.mp hupdate
    have hends := Evaluator.placeOf_ends (readsOperands he) htarget hsilent false env
    rw [Ends, hplace] at hends
    cases hends with
    | found hlocates =>
      exact .intro hlocates (hlocates.livingOperands h hsilent he hdepth hplace) hmutable hwalk
        hcurrent
    | member hsupplements hnull =>
      rw [hnull] at hwalk
      cases Value.walk_null hwalk
      exact absurd hcurrent (hmember _ hsupplements _)
    | created hcreating => cases hcreating
  · rintro ⟨hlocates, hliving, hmutable, hwalk, hcurrent⟩
    refine ⟨_, s, (placeOf_of_root hroot _).trans
      (hlocates.placeOf_eq h hsilent hliving he hdepth), ?_⟩
    exact bind_eq_done_iff.mpr
      ⟨_, _, updateCell_eq_done_iff.mpr ⟨hmutable, _, hwalk, hcurrent, rfl⟩, rfl⟩

/-- An assignment whose value has been found is a write, also where the target names a method of a
kind of values: what is assigned there fails either way. -/
theorem assign_eq_done_iff (he : e.evaluate = evaluate host depth) {operator : Operator}
    {assigned : Value} (hfunction : operator = .assign → ∀ callable, assigned ≠ .function callable)
    (hvalue : e.evaluate value scope env s = .done (.value assigned) s) :
    e.assign operator target value scope env s = .done flow s' ↔
      e.writeTo operator target assigned scope
        { env with held := .value assigned :: env.held } s = .done flow s' := by
  rw [Evaluator.assign, holdThen_of_done hvalue]
  cases target with
  | member p object name =>
    obtain ⟨kind?, hkind⟩ := Evaluator.typeName?_done object scope
      { env with held := .value assigned :: env.held } s
    dsimp only
    rw [bind_of_done hkind]
    cases kind? with
    | none => exact Iff.rfl
    | some kind =>
      constructor
      · intro hdone
        change Evaluator.registerMethod kind name operator assigned _ s = _ at hdone
        unfold Evaluator.registerMethod at hdone
        split at hdone
        · exact absurd rfl (hfunction rfl _)
        · cases hdone
      · intro hdone
        obtain ⟨place, s₁, hplace, -⟩ := bind_eq_done_iff.mp hdone
        obtain ⟨found, s₂, hobject, hcell⟩ := bind_eq_done_iff.mp hplace
        obtain ⟨text, htext⟩ := Evaluator.exists_text_of_typeName? (readsOperands he) hkind hobject
        rw [htext] at hcell
        cases hcell
  | _ => exact Iff.rfl

/-- An assignment whose value has been found succeeds exactly if it updates what stands at the end
of the path. -/
theorem assign_iff_updates (h : WorksIn env s scope) (htarget : target.isPath)
    (hroot : ∀ name ∈ target.root?, (s.heap.lookup? scope name).isSome)
    (hsilent : s.heap.SilentIndices scope target) (he : e.evaluate = evaluate host depth)
    (hdepth : 0 < depth) {operator : Operator} {assigned : Value}
    (hvalue : e.evaluate value scope env s = .done (.value assigned) s)
    (hliving : ∀ ref ∈ (Held.value assigned).refs, living env s ref)
    (hfunction : operator = .assign → ∀ callable, assigned ≠ .function callable)
    (hmember : ∀ heap, s.heap.Supplements scope target heap →
      ∀ written, operator.updated assigned .null ≠ .ok written) :
    e.assign operator target value scope env s = .done flow s' ↔
      Updates (living env s) s scope target (operator.updated assigned) flow s' := by
  rw [assign_eq_done_iff he hfunction hvalue,
    writeTo_eq_done_iff (h.holding hliving) htarget hroot hsilent he hdepth hmember,
    living_holding hliving]

variable {operator arithmetic : Operator} {compute : Value → Value → Except Fault Value}

/-- What an updating assignment does to the value that its place has. -/
theorem updated_of_compound? (hoperator : operator.compound? = some arithmetic)
    (harithmetic : Value.arithmetic? arithmetic = some compute) (assigned : Value) :
    operator.updated assigned = (compute · assigned) := by
  funext current
  rw [Operator.updated, hoperator, Option.bind_some, harithmetic]

/-- An updating assignment succeeds exactly if its operand has a value and the arithmetic succeeds
on what stands at the end of the path. -/
theorem evaluate_compound_eq_done_iff (h : WorksIn env s scope) (htarget : target.isPath)
    (hvalue : value.isOperand)
    (hroot : ∀ name ∈ target.root?, (s.heap.lookup? scope name).isSome)
    (hsilent : s.heap.SilentIndices scope target)
    (hoperator : operator.compound? = some arithmetic)
    (harithmetic : Value.arithmetic? arithmetic = some compute) (hdepth : 0 < depth)
    (p : Position) :
    evaluate host (depth + 1) (.assign p operator target value) scope env s = .done flow s' ↔
      ∃ assigned, Answers env s scope value assigned ∧
        Updates (living env s) s scope target (compute · assigned) flow s' := by
  have hassign : operator ≠ .assign := by
    rintro rfl
    cases hoperator
  -- null is no operand of arithmetic, so no missing member is declared with success
  have hnull : ∀ assigned written, operator.updated assigned .null ≠ .ok written := by
    intro assigned written hwritten
    rw [updated_of_compound? hoperator harithmetic] at hwritten
    cases Value.Combines.of_arithmetic? harithmetic hwritten
  rw [evaluate, stamp_eq_done_iff, Evaluator.expression]
  constructor
  · intro hdone
    obtain ⟨flow₁, s₁, hread, -⟩ := bind_eq_done_iff.mp hdone
    obtain ⟨rfl, assigned, rfl, hanswer⟩ :=
      (h.evaluate_operand_eq_done_iff host hvalue hdepth).mp hread
    rw [assign_iff_updates h htarget hroot hsilent rfl hdepth hread hanswer.2
      (absurd · hassign) fun _ _ => hnull assigned,
      updated_of_compound? hoperator harithmetic] at hdone
    exact ⟨assigned, hanswer, hdone⟩
  · rintro ⟨assigned, hanswer, hupdates⟩
    have hread : evaluate host depth value scope env s = .done (.value assigned) s :=
      (h.evaluate_operand_eq_done_iff host hvalue hdepth).mpr ⟨rfl, _, rfl, hanswer⟩
    rw [assign_iff_updates h htarget hroot hsilent rfl hdepth hread hanswer.2
      (absurd · hassign) fun _ _ => hnull assigned,
      updated_of_compound? hoperator harithmetic]
    exact hupdates

/-- Arithmetic between two expressions evaluates one after the other. -/
theorem binary_of_arithmetic? (harithmetic : Value.arithmetic? arithmetic = some compute)
    (left right : Node) : e.binary arithmetic left right scope =
      holdThen (e.evaluate left scope) fun a => holdThen (e.evaluate right scope) fun b =>
        return .value (← ofExcept (compute a b)) := by
  cases arithmetic with
  | add | subtract | multiply | divide | remainder | power =>
    cases harithmetic
    rfl
  | _ => cases harithmetic

/-- Arithmetic between a path and an operand succeeds exactly if both have values that go together,
and nothing changes. -/
theorem evaluate_binary_eq_done_iff (h : WorksIn env s scope) (htarget : target.isPath)
    (hvalue : value.isOperand)
    (hroot : ∀ name ∈ target.root?, (s.heap.lookup? scope name).isSome)
    (hsilent : s.heap.SilentIndices scope target) (hopen : s.heap.OpenPath scope target)
    (harithmetic : Value.arithmetic? arithmetic = some compute) (hdepth : 0 < depth)
    (p : Position) :
    evaluate host (depth + 1) (.binary p arithmetic target value) scope env s = .done flow s' ↔
      s' = s ∧ ∃ current assigned written,
        evaluate host depth target scope env s = .done (.value current) s ∧
        (∀ ref ∈ current.refs, living env s ref) ∧ Answers env s scope value assigned ∧
        compute current assigned = .ok written ∧ flow = .value written := by
  rw [evaluate, stamp_eq_done_iff, Evaluator.expression, binary_of_arithmetic? harithmetic]
  constructor
  · intro hdone
    obtain ⟨flow₁, s₁, hread, hrest⟩ := bind_eq_done_iff.mp hdone
    obtain ⟨rfl, current, rfl, hplace⟩ :=
      evaluate_path_done h htarget hroot hsilent hopen hread
    obtain ⟨flow₂, s₂, hoperand, hrest⟩ := bind_eq_done_iff.mp hrest
    obtain ⟨rfl, assigned, rfl, -⟩ := evaluate_operand_done hvalue hoperand
    obtain ⟨written, s₃, houtcome, hpure⟩ := bind_eq_done_iff.mp hrest
    obtain ⟨hcompute, rfl⟩ := ofExcept_eq_done_iff.mp houtcome
    cases hpure
    have hliving : ∀ ref ∈ (Held.value current).refs, living env s' ref := by
      obtain hflat | ⟨cell, path, hcell, -, hwalk⟩ := hplace
      · intro ref href
        cases Value.Combines.of_arithmetic? harithmetic hcompute with
        | vectors => cases hflat
        | numbers | texts | matrices | words => cases href
      · exact fun ref href => hcell.refs (Value.refs_walk hwalk href)
    obtain ⟨-, _, hsame, hanswer⟩ :=
      ((h.holding hliving).evaluate_operand_eq_done_iff host hvalue hdepth).mp hoperand
    cases hsame
    rw [Answers, living_holding hliving] at hanswer
    exact ⟨rfl, current, assigned, written, hread, hliving, hanswer, hcompute, rfl⟩
  · rintro ⟨rfl, current, assigned, written, hread, hliving, hanswer, hcompute, rfl⟩
    have hheld : ∀ ref ∈ (Held.value current).refs, living env s' ref := hliving
    have hoperand := ((h.holding hheld).evaluate_operand_eq_done_iff host hvalue hdepth).mpr
      ⟨rfl, assigned, rfl, hanswer.1, by
        rw [living_holding hheld]
        exact hanswer.2⟩
    rw [holdThen_of_done hread, holdThen_of_done hoperand,
      bind_of_done (ofExcept_eq_done_iff.mpr ⟨hcompute, rfl⟩)]
    rfl

/-- An assignment of arithmetic between its own target and an operand succeeds exactly if the
operand has a value and the arithmetic succeeds on what stands at the end of the path. -/
theorem evaluate_expanded_eq_done_iff (h : WorksIn env s scope) (htarget : target.isPath)
    (hvalue : value.isOperand)
    (hroot : ∀ name ∈ target.root?, (s.heap.lookup? scope name).isSome)
    (hsilent : s.heap.SilentIndices scope target) (hopen : s.heap.OpenPath scope target)
    (harithmetic : Value.arithmetic? arithmetic = some compute) (hdepth : target.height ≤ depth)
    (p q : Position) :
    evaluate host (depth + 2) (.assign p .assign target (.binary q arithmetic target value)) scope
        env s = .done flow s' ↔
      ∃ assigned, Answers env s scope value assigned ∧
        Updates (living env s) s scope target (compute · assigned) flow s' := by
  have hpos : 0 < depth := Nat.lt_of_lt_of_le target.height_pos hdepth
  rw [evaluate, stamp_eq_done_iff, Evaluator.expression]
  -- once the sum is there, the assignment writes it to the place
  have hwrite : ∀ {current assigned written : Value},
      evaluate host depth target scope env s = .done (.value current) s →
      (∀ ref ∈ current.refs, living env s ref) → Answers env s scope value assigned →
      compute current assigned = .ok written →
      evaluate host (depth + 1) (.binary q arithmetic target value) scope env s =
        .done (.value written) s →
      (Evaluator.assign (.within host (depth + 1)) .assign target
          (.binary q arithmetic target value) scope env s = .done flow s' ↔
        Updates (living env s) s scope target (fun _ => .ok written) flow s') := by
    intro current assigned written hread hliving hanswer hcompute hsum
    have hcombines := Value.Combines.of_arithmetic? harithmetic hcompute
    refine assign_iff_updates h htarget hroot hsilent rfl (Nat.succ_pos depth) hsum ?_ ?_ ?_
    · intro ref href
      exact (hcombines.refs href).elim (hliving ref) (hanswer.2 ref)
    · rintro - callable rfl
      cases hcombines
    · intro heap hsupplements
      exact absurd hread (hsupplements.evaluate_ne_done depth _)
  constructor
  · intro hdone
    obtain ⟨flow₁, s₁, hsum, -⟩ := bind_eq_done_iff.mp hdone
    obtain ⟨rfl, current, assigned, written, hread, hliving, hanswer, hcompute, rfl⟩ :=
      (evaluate_binary_eq_done_iff h htarget hvalue hroot hsilent hopen harithmetic hpos q).mp hsum
    obtain ⟨hlocates, hoperands, hmutable, hwalk, hwritten⟩ :=
      (hwrite hread hliving hanswer hcompute hsum).mp hdone
    -- what was read is what stands at the end of the path
    cases hread.symm.trans (hlocates.evaluate_eq h hsilent hoperands hwalk hdepth)
    cases hwritten
    exact ⟨assigned, hanswer, .intro hlocates hoperands hmutable hwalk hcompute⟩
  · rintro ⟨assigned, hanswer, ⟨hlocates, hoperands, hmutable, hwalk, hcompute⟩⟩
    have hread : evaluate host depth target scope env s = _ :=
      hlocates.evaluate_eq h hsilent hoperands hwalk hdepth
    have hliving := fun (ref : Ref) (href : ref ∈ _) =>
      (hlocates.living_place h hoperands).1.refs (Value.refs_walk hwalk href)
    have hsum :=
      (evaluate_binary_eq_done_iff h htarget hvalue hroot hsilent hopen harithmetic hpos q).mpr
        ⟨rfl, _, _, _, hread, hliving, hanswer, hcompute, rfl⟩
    exact (hwrite hread hliving hanswer hcompute hsum).mpr
      (.intro hlocates hoperands hmutable hwalk rfl)

end Assignments

namespace Eval

variable {α β : Type}

/-- Whenever a computation gives a value, another one gives the same value in the same state. -/
def Entails (m m' : Eval α) : Prop :=
  ∀ env s a s', m env s = .done a s' → m' env s = .done a s'

namespace Entails

/-- A computation gives what it gives. -/
theorem refl (m : Eval α) : m.Entails m :=
  fun _ _ _ _ h => h

/-- A fault gives no value. -/
theorem fault (f : Fault) (m : Eval α) : (Eval.fault f).Entails m :=
  nofun

/-- Two computations after one another give a value if both do. -/
theorem bind {m m' : Eval α} {k k' : α → Eval β} (hm : m.Entails m')
    (hk : ∀ a, (k a).Entails (k' a)) : (m >>= k).Entails (m' >>= k') := by
  intro env s b s' h
  obtain ⟨a, s₁, hfirst, hrest⟩ := bind_eq_done_iff.mp h
  exact bind_eq_done_iff.mpr ⟨a, s₁, hm _ _ _ _ hfirst, hk _ _ _ _ _ hrest⟩

/-- The place that faults get has no influence on a value. -/
theorem stamp {m m' : Eval α} (hm : m.Entails m') (p q : Position) :
    (Eval.stamp p m).Entails (Eval.stamp q m') := by
  intro env s a s' h
  exact stamp_eq_done_iff.mpr (hm _ _ _ _ (stamp_eq_done_iff.mp h))

/-- Both computations hold on to the same. -/
theorem holding {m m' : Eval α} (hm : m.Entails m') (held : Held) :
    (Eval.holding held m).Entails (Eval.holding held m') :=
  fun env s => hm { env with held := held :: env.held } s

/-- What follows a value is the same. -/
theorem andThen {m m' : Eval Flow} {k k' : Value → Eval Flow} (hm : m.Entails m')
    (hk : ∀ value, (k value).Entails (k' value)) : (m.andThen k).Entails (m'.andThen k') := by
  refine hm.bind fun flow => ?_
  cases flow with
  | value value => exact hk value
  | returned | broken => exact refl _

/-- What follows a value that is held is the same. -/
theorem holdThen {m m' : Eval Flow} {k k' : Value → Eval Flow} (hm : m.Entails m')
    (hk : ∀ value, (k value).Entails (k' value)) : (m.holdThen k).Entails (m'.holdThen k') :=
  hm.andThen fun value => (hk value).holding _

end Entails

end Eval

namespace Node

/-- A literal, a variable or a path is written once more at another place of the script. -/
inductive Repeats : Node → Node → Prop
  | leaf {p q : Position} {operand : Leaf} : Repeats (leaf p operand) (leaf q operand)
  | member {p q : Position} {object object' : Node} {name : String} : Repeats object object' →
    Repeats (member p object name) (member q object' name)
  | index {p q : Position} {container container' subscript subscript' : Node} :
    Repeats container container' → Repeats subscript subscript' →
      Repeats (index p container subscript) (index q container' subscript')

namespace Repeats

variable {node copy : Node} {scope : Scope}

/-- Each copy of an expression is repeated by the others. -/
theorem symm (h : node.Repeats copy) : copy.Repeats node := by
  induction h with
  | leaf => exact .leaf
  | member _ ih => exact .member ih
  | index _ _ ih ih' => exact .index ih ih'

/-- Copies of an expression are equally high. -/
theorem height_eq (h : node.Repeats copy) : node.height = copy.height := by
  induction h with
  | leaf => rfl
  | member _ ih => rw [height, height, ih]
  | index _ _ ih ih' => rw [height, height, ih, ih']

/-- Copies of an expression name the same kind of values. -/
theorem typeName?_eq (h : node.Repeats copy) :
    Evaluator.typeName? node scope = Evaluator.typeName? copy scope := by
  cases h with
  | @leaf p q operand => cases operand <;> rfl
  | member | index => rfl

/-- Copies of an expression have the same value. -/
theorem evaluate_entails (h : node.Repeats copy) (depth : Nat) (scope : Scope) :
    (evaluate host depth node scope).Entails (evaluate host depth copy scope) := by
  induction h generalizing depth with
  | @leaf p q operand =>
    cases depth with
    | zero => exact .refl _
    | succ depth => exact (Entails.refl _).stamp p q
  | @member p q object object' name hobject ih =>
    cases depth with
    | zero => exact .refl _
    | succ depth =>
      refine Entails.stamp ?_ p q
      rw [Evaluator.expression, Evaluator.expression, Evaluator.member, Evaluator.member,
        hobject.typeName?_eq]
      refine (Entails.refl _).bind fun kind? => ?_
      cases kind? with
      | some kind => exact .refl _
      | none => exact (ih depth).andThen fun value => .refl _
  | @index p q container container' subscript subscript' hcontainer hsubscript ih ih' =>
    cases depth with
    | zero => exact .refl _
    | succ depth =>
      refine Entails.stamp ?_ p q
      exact (ih depth).holdThen fun outer => (ih' depth).andThen fun index => .refl _

/-- Copies of an expression stand for the same place. -/
theorem placeOf_entails (h : node.Repeats copy) {e : Evaluator} {depth : Nat}
    (he : e.evaluate = evaluate host depth) (creating : Bool) :
    (e.placeOf scope creating node).Entails (e.placeOf scope creating copy) := by
  induction h generalizing creating with
  | @leaf p q operand =>
    cases operand with
    | name name =>
      rw [Evaluator.placeOf, Evaluator.placeOf]
      refine (Entails.refl _).bind fun cell? => ?_
      cases cell? with
      | some cell => exact .refl _
      | none =>
        cases creating with
        | true => exact .refl _
        | false => exact .fault _ _
    | _ => exact .refl _
  | member hobject =>
    rw [Evaluator.placeOf, Evaluator.placeOf, he]
    exact (hobject.evaluate_entails depth scope).bind fun flow => .refl _
  | index _ hsubscript ih =>
    rw [Evaluator.placeOf, Evaluator.placeOf, he]
    refine (ih false).bind fun place => ?_
    exact (((hsubscript.evaluate_entails depth scope).bind fun flow => .refl _).holding _).holding _

/-- An assignment of arithmetic may consist of copies of its parts. -/
theorem evaluate_assign_entails {written source read value operand : Node}
    (hwritten : node.Repeats written) (hread : source.Repeats read)
    (hoperand : value.Repeats operand)
    {arithmetic : Operator} {compute : Value → Value → Except Fault Value}
    (harithmetic : Value.arithmetic? arithmetic = some compute) (depth : Nat)
    (p q p' q' : Position) :
    (evaluate host depth (.assign p .assign node (.binary q arithmetic source value)) scope).Entails
      (evaluate host depth (.assign p' .assign written (.binary q' arithmetic read operand))
        scope) := by
  cases depth with
  | zero => exact .refl _
  | succ depth =>
    refine Entails.stamp ?_ p p'
    have hsum : (evaluate host depth (.binary q arithmetic source value) scope).Entails
        (evaluate host depth (.binary q' arithmetic read operand) scope) := by
      cases depth with
      | zero => exact .refl _
      | succ depth =>
        refine Entails.stamp ?_ q q'
        rw [Evaluator.expression, Evaluator.expression, binary_of_arithmetic? harithmetic,
          binary_of_arithmetic? harithmetic]
        exact (hread.evaluate_entails depth scope).holdThen fun a =>
          (hoperand.evaluate_entails depth scope).holdThen fun b => .refl _
    let e := Evaluator.within host depth
    have hwrite : ∀ assigned, (e.writeTo .assign node assigned scope).Entails
        (e.writeTo .assign written assigned scope) := fun assigned => (hwritten.placeOf_entails rfl _).bind fun place => .refl _
    refine hsum.holdThen fun assigned => ?_
    cases hwritten with
    | leaf => exact hwrite assigned
    | index => exact hwrite assigned
    | member hobject =>
      dsimp only
      rw [hobject.typeName?_eq]
      refine (Entails.refl _).bind fun kind? => ?_
      cases kind? with
      | some kind => exact .refl _
      | none => exact hwrite assigned

end Repeats

end Node

/-- An updating assignment has arithmetic. -/
theorem Operator.exists_arithmetic? {operator arithmetic : Operator}
    (h : operator.compound? = some arithmetic) :
    ∃ compute, Value.arithmetic? arithmetic = some compute := by
  cases operator with
  | addAssign | subtractAssign | multiplyAssign | divideAssign | remainderAssign =>
    cases h
    exact ⟨_, rfl⟩
  | _ => cases h

/-- An evaluation that holds its scope works in it. -/
theorem WorksIn.of_held {env : Env} {s : State} {scope : Scope}
    (hheld : .scope scope ∈ env.held)
    (howner : ∀ id ∈ s.heap.owner? scope, id < s.heap.structs.size) : WorksIn env s scope where
  frames _ href := .of_mem_roots
    (List.mem_append_left _ (List.mem_flatMap.mpr ⟨.scope scope, hheld, href⟩))
  owner := howner

/-- An updating assignment to a variable, a member or a chain of indices below one of these succeeds
exactly if the assignment of the arithmetic between its target and its operand does, with the same
value and in the same state. The path starts from a variable that is there or from a member, no
container on it is an instance with a method for its elements, and no index calls a method for its
key. The evaluation holds its scope, the instance around the scope is in the heap, and there are
levels enough for the longer form. -/
theorem evaluate_compound_iff_expanded {depth : Nat} {p q r : Position}
    {operator arithmetic : Operator} {target written read value operand : Node} {scope : Scope}
    {env : Env} {s s' : State} {flow : Flow} (hoperator : operator.compound? = some arithmetic)
    (htarget : target.isPath) (hvalue : value.isOperand) (hwritten : target.Repeats written)
    (hread : target.Repeats read) (hoperand : value.Repeats operand)
    (hroot : ∀ name ∈ target.root?, (s.heap.lookup? scope name).isSome)
    (hsilent : s.heap.SilentIndices scope target) (hopen : s.heap.OpenPath scope target)
    (hheld : .scope scope ∈ env.held)
    (howner : ∀ id ∈ s.heap.owner? scope, id < s.heap.structs.size)
    (hdepth : (Node.assign q .assign written (.binary r arithmetic read operand)).height ≤ depth) :
    evaluate host depth (.assign p operator target value) scope env s = .done flow s' ↔
      evaluate host depth (.assign q .assign written (.binary r arithmetic read operand)) scope env
        s = .done flow s' := by
  obtain ⟨compute, harithmetic⟩ := Operator.exists_arithmetic? hoperator
  have hworks := WorksIn.of_held hheld howner
  have hheight : target.height + 2 ≤ depth := by
    simp only [Node.height, ← hwritten.height_eq, ← hread.height_eq] at hdepth
    omega
  obtain ⟨deeper, rfl⟩ : ∃ deeper, depth = deeper + 2 := ⟨depth - 2, by omega⟩
  have hdeeper : target.height ≤ deeper := Nat.le_of_add_le_add_right hheight
  rw [evaluate_compound_eq_done_iff hworks htarget hvalue hroot hsilent hoperator harithmetic
      (Nat.succ_pos deeper) p,
    ← evaluate_expanded_eq_done_iff hworks htarget hvalue hroot hsilent hopen harithmetic hdeeper
      q r]
  constructor
  · exact hwritten.evaluate_assign_entails hread hoperand harithmetic _ q r q r _ _ _ _
  · exact hwritten.symm.evaluate_assign_entails hread.symm hoperand.symm harithmetic _ q r q r
      _ _ _ _

/-- For an instance `o` whose member `d` is a dictionary of dictionaries, `o.d[k]["y"] += "b"` and
`o.d[k]["y"] = o.d[k]["y"] + "b"` both write to the inner dictionary. -/
theorem evaluate_compound_iff_expanded_nested :
    let heap (text : String) : Heap :=
      ⟨#[⟨[("o", 0), ("k", 1)], none⟩, ⟨[("d", 2)], some 0⟩],
        #[⟨.struct 0, true⟩, ⟨.text "x", true⟩,
          ⟨.dictionary [("x", .dictionary [("y", .text text)])], true⟩],
        #[.object "A" ⟨1, [0]⟩ ⟨none, none, none, none, none⟩ false], #[], 0⟩
    let s : State := ⟨heap "a", [], false, #[]⟩
    let env : Env := ⟨.empty, [.scope ⟨0, []⟩]⟩
    let target (column : Nat) : Node :=
      .index ⟨1, column + 6⟩
        (.index ⟨1, column + 3⟩
          (.member ⟨1, column + 1⟩ (.leaf ⟨1, column⟩ (.name "o")) "d")
          (.leaf ⟨1, column + 4⟩ (.name "k")))
        (.leaf ⟨1, column + 7⟩ (.text "y"))
    let ending : Result Flow := .done (.value (.text "ab")) ⟨heap "ab", [], false, #[]⟩
    evaluate [] 6 (.assign ⟨1, 13⟩ .addAssign (target 1) (.leaf ⟨1, 16⟩ (.text "b"))) ⟨0, []⟩ env
        s = ending ∧
      evaluate [] 6 (.assign ⟨1, 13⟩ .assign (target 1)
        (.binary ⟨1, 27⟩ .add (target 15) (.leaf ⟨1, 29⟩ (.text "b")))) ⟨0, []⟩ env s = ending := by
  intro heap s env target ending
  have hhooks : ∀ id, (s.heap.hooks? id).bind (·.element) = none ∧
      (s.heap.hooks? id).bind (·.text) = none ∧ (s.heap.hooks? id).bind (·.key) = none := by
    intro id
    cases id with
    | zero => exact ⟨rfl, rfl, rfl⟩
    | succ id => exact ⟨rfl, rfl, rfl⟩
  have hsilent : s.heap.SilentIndices ⟨0, []⟩ (target 1) := fun _ _ _ _ id _ => (hhooks id).2
  have hopen : s.heap.OpenPath ⟨0, []⟩ (target 1) :=
    ⟨⟨True.intro, fun _ _ id _ _ => (hhooks id).1⟩, fun _ _ id _ _ => (hhooks id).1⟩
  have hrepeats : ∀ column, (target 1).Repeats (target column) :=
    fun column => .index (.index (.member .leaf) .leaf) .leaf
  have hcompound : evaluate [] 6 (.assign ⟨1, 13⟩ .addAssign (target 1) (.leaf ⟨1, 16⟩ (.text "b")))
      ⟨0, []⟩ env s = ending := by with_unfolding_all rfl
  exact ⟨hcompound, (evaluate_compound_iff_expanded rfl rfl rfl (hrepeats 1) (hrepeats 15) .leaf
    nofun hsilent hopen List.mem_cons_self nofun (Nat.le_refl 6)).mp hcompound⟩

/-- The two forms differ where reading the target calls a method. If `v` is an instance whose method
for elements replaces `v` by a dictionary, `v["k"] += "b"` fails and `v["k"] = v["k"] + "b"`
succeeds. If an index is a vector of an instance whose method for its text counts its calls, both
forms succeed, with one call and with two. -/
theorem evaluate_compound_calls_methods :
    let name (x : String) : Node := .leaf ⟨1, 1⟩ (.name x)
    let text (t : String) : Node := .leaf ⟨1, 1⟩ (.text t)
    let assign (target value : Node) : Node := .assign ⟨1, 1⟩ .assign target value
    let plus (left right : Node) : Node := .binary ⟨1, 1⟩ .add left right
    let body (first : Node) (result : String) : Node :=
      .sequence ⟨1, 1⟩ .block [first, .result ⟨1, 1⟩ (text result)]
    let method (parameters : List Parameter) (body : Node) : Option Callable :=
      some (.script ⟨0, ⟨parameters, body⟩, .held ⟨0, []⟩⟩)
    let state (bindings : List (String × CellId)) (cells : Array Cell) (hooks : Hooks) : State :=
      ⟨⟨#[⟨bindings, none⟩, ⟨[], some 0⟩], cells, #[.object "A" ⟨1, [0]⟩ hooks false], #[], 1⟩,
        [], false, #[]⟩
    let run (node : Node) (s : State) : Result Flow :=
      evaluate [] 9 node ⟨0, []⟩ ⟨.empty, [.scope ⟨0, []⟩]⟩ s
    let compound (target : Node) : State → Result Flow :=
      run (.assign ⟨1, 1⟩ .addAssign target (text "b"))
    let expanded (target : Node) : State → Result Flow :=
      run (assign target (plus target (text "b")))
    let withElements := state [("v", 0), ("d", 1)] #[⟨.struct 0, true⟩, ⟨.dictionary [], true⟩]
      ⟨none, none, none, none, method [⟨"i", .value⟩] (body (assign (name "v") (name "d")) "a")⟩
    let element := Node.index ⟨1, 1⟩ (name "v") (text "k")
    let withText := state [("n", 0), ("w", 1), ("d", 2)]
      #[⟨.text "", true⟩, ⟨.vector [.struct 0], true⟩, ⟨.dictionary [("[k]", .text "a")], true⟩]
      ⟨method [] (body (assign (name "n") (plus (name "n") (text "x"))) "k"), none, none, none,
        none⟩
    let entry := Node.index ⟨1, 1⟩ (name "d") (name "w")
    (element.isPath ∧ (withElements.heap.lookup? ⟨0, []⟩ "v").isSome) ∧
      (entry.isPath ∧ (withText.heap.lookup? ⟨0, []⟩ "d").isSome) ∧
      (∀ id, ¬ withElements.heap.Denotes ⟨0, []⟩ (text "k") (.struct id)) ∧
      (∀ id, ¬ withText.heap.Denotes ⟨0, []⟩ (name "w") (.struct id)) ∧
      (∃ fault, compound element withElements =
        .failed fault (compound element withElements).state) ∧
      expanded element withElements =
        .done (.value (.text "ab")) (expanded element withElements).state ∧
      compound entry withText = .done (.value (.text "ab")) (compound entry withText).state ∧
      expanded entry withText = .done (.value (.text "ab")) (expanded entry withText).state ∧
      (compound entry withText).state.heap.get? ⟨0, []⟩ "n" = some (.text "x") ∧
      (expanded entry withText).state.heap.get? ⟨0, []⟩ "n" = some (.text "xx") := by
  refine ⟨⟨rfl, rfl⟩, ⟨rfl, rfl⟩, ?_, ?_, ⟨_, by with_unfolding_all rfl⟩,
    by with_unfolding_all rfl, by with_unfolding_all rfl, by with_unfolding_all rfl,
    by with_unfolding_all rfl, by with_unfolding_all rfl⟩
  · intro id hdenotes
    cases hdenotes.unique (.literal rfl)
  · intro id hdenotes
    cases hdenotes.unique (.name rfl)

end SoundLaw
