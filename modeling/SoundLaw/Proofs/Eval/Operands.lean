import SoundLaw.Eval.Expression
import SoundLaw.Proofs.Eval.Endings

/-!
# Literals and variables

A literal stands for itself, and a name for the value of its variable. A name without a variable
may still stand for the instance around the scope or for a kind of values. Evaluating a literal or
a name changes nothing, whatever comes of it.
-/

namespace SoundLaw

open Eval

variable {host : Host}

/-- The value that a literal stands for. -/
def Leaf.literal? : Leaf → Option Value
  | null => some .null
  | bool b => some (.bool b)
  | number x => some (.number x)
  | text t => some (.text t)
  | phone p => some (.phone p)
  | word w => some (.word w)
  | feature f => some (.feature f)
  | stop | name _ | declare _ => none

/-- Whether an expression is a literal or a variable. -/
def Node.isOperand : Node → Bool
  | .leaf _ (.name _) => true
  | .leaf _ operand => operand.literal?.isSome
  | _ => false

/-- What a literal or a variable stands for: a name without a variable may still be the instance
around the scope or a kind of values. -/
inductive Heap.Denotes (heap : Heap) (scope : Scope) : Node → Value → Prop
  | literal {p : Position} {operand : Leaf} {value : Value} :
    operand.literal? = some value → Denotes heap scope (.leaf p operand) value
  | name {p : Position} {name : String} {value : Value} :
    heap.get? scope name = some value → Denotes heap scope (.leaf p (.name name)) value
  | this {p : Position} {id : StructId} : heap.get? scope "this" = none →
    heap.owner? scope = some id → Denotes heap scope (.leaf p (.name "this")) (.struct id)
  | kind {p : Position} {name : String} {kind : Kind} : heap.get? scope name = none →
    Kind.ofName? name = some kind → Denotes heap scope (.leaf p (.name name)) (.text kind.name)

namespace Heap

variable {heap : Heap} {scope : Scope} {node : Node} {value other : Value}

/-- What stands for a value is a literal or a variable. -/
theorem Denotes.isOperand (h : heap.Denotes scope node value) : node.isOperand := by
  cases h with
  | @literal p operand _ hliteral =>
    cases operand with
    | name | stop | declare => cases hliteral
    | null | bool | number | text | phone | word | feature => rfl
  | name => rfl
  | this => rfl
  | kind => rfl

/-- A literal or a variable stands for one value. -/
theorem Denotes.unique (h : heap.Denotes scope node value)
    (hother : heap.Denotes scope node other) : value = other := by
  cases h with
  | literal hliteral =>
    cases hother with
    | literal hother => exact Option.some.inj (hliteral.symm.trans hother)
    | name | this | kind => cases hliteral
  | name hget =>
    cases hother with
    | literal hother => cases hother
    | name hother => exact Option.some.inj (hget.symm.trans hother)
    | this hunknown | kind hunknown =>
      rw [hget] at hunknown
      cases hunknown
  | this hunknown howner =>
    cases hother with
    | literal hother => cases hother
    | name hget =>
      rw [hget] at hunknown
      cases hunknown
    | this _ hother =>
      rw [howner] at hother
      cases hother
      rfl
    | kind _ hkind => cases hkind
  | kind hunknown hkind =>
    cases hother with
    | literal hother => cases hother
    | name hget =>
      rw [hget] at hunknown
      cases hunknown
    | this => cases hkind
    | kind _ hother =>
      rw [hkind] at hother
      cases hother
      rfl

end Heap

namespace Evaluator

/-- The instance around a scope stands behind one name only, and asking for it changes nothing. -/
theorem ownerOf_ends (scope : Scope) (name : String) (env : Env) (s : State) :
    Ends (nameValue.ownerOf scope name) env s
      (fun owner s' => s' = s ∧ ∀ id ∈ owner, name = "this" ∧ s.heap.owner? scope = some id)
      (· = s) := by
  rw [nameValue.ownerOf]
  split
  · next hname =>
    apply Ends.inspect_bind
    cases howner : s.heap.owner? scope with
    | none => exact Ends.pure ⟨rfl, fun _ hmem => absurd hmem (Option.not_mem_none _)⟩
    | some owner =>
      refine Ends.isAlive_bind fun alive => ?_
      refine Ends.pure ⟨rfl, fun id hid => ⟨hname, ?_⟩⟩
      cases alive with
      | true => exact hid
      | false => exact absurd hid (Option.not_mem_none _)
  · exact Ends.pure ⟨rfl, fun _ hmem => absurd hmem (Option.not_mem_none _)⟩

/-- A name stands for its value, and looking it up changes nothing. -/
theorem nameValue_ends (scope : Scope) (name : String) (p : Position) (env : Env) (s : State) :
    Ends (nameValue scope name) env s
      (fun value s' => s' = s ∧ s.heap.Denotes scope (.leaf p (.name name)) value) (· = s) := by
  apply Ends.inspect_bind
  cases hget : s.heap.get? scope name with
  | some value => exact Ends.pure ⟨rfl, .name hget⟩
  | none =>
    refine (ownerOf_ends scope name env s).bind ?_
    rintro owner s' ⟨rfl, howner⟩
    cases owner with
    | some id =>
      obtain ⟨rfl, hid⟩ := howner id rfl
      exact Ends.pure ⟨rfl, .this hget hid⟩
    | none =>
      cases hkind : Kind.ofName? name with
      | some kind => exact Ends.pure ⟨rfl, .kind hget hkind⟩
      | none => exact Ends.fault rfl

/-- Whether evaluating literals and variables changes nothing. -/
def ReadsOperands (e : Evaluator) : Prop :=
  ∀ node, node.isOperand → ∀ scope env s, Ends (e.evaluate node scope) env s
    (fun flow s' => s' = s ∧ s.heap.Denotes scope node flow.carried) (· = s)

/-- Asking whether an expression names a kind of values changes nothing. -/
theorem typeName?_done (node : Node) (scope : Scope) (env : Env) (s : State) :
    ∃ kind?, typeName? node scope env s = .done kind? s := by
  unfold typeName?
  split <;> exact ⟨_, rfl⟩

/-- A name that stands for an instance names no kind of values. -/
theorem typeName?_of_denotes_struct {scope : Scope} {object : Node} {id : StructId}
    {env : Env} {s : State} (h : s.heap.Denotes scope object (.struct id)) :
    typeName? object scope env s = .done none s := by
  cases h with
  | @literal p operand _ hliteral => cases operand <;> cases hliteral
  | @name p name _ hget =>
    obtain ⟨cell, hcell, -⟩ := Option.map_eq_some_iff.mp hget
    rw [typeName?, inspect, hcell]
  | this hunknown =>
    have hcell := Option.map_eq_none_iff.mp hunknown
    rw [typeName?, inspect, hcell]
    rfl

/-- What names a kind of values is read as a text. -/
theorem exists_text_of_typeName? {e : Evaluator} (he : e.ReadsOperands) {scope : Scope}
    {object : Node} {kind : Kind} {env : Env} {s s' : State} {flow : Flow}
    (hkind : typeName? object scope env s = .done (some kind) s)
    (hflow : e.evaluate object scope env s = .done flow s') :
    ∃ text, flow.carried = .text text := by
  unfold typeName? at hkind
  split at hkind
  · next p name =>
    rw [inspect] at hkind
    have hread := he (.leaf p (.name name)) rfl scope env s
    rw [Ends, hflow] at hread
    obtain ⟨-, hdenotes⟩ := hread
    cases hlookup : s.heap.lookup? scope name with
    | some found =>
      rw [hlookup] at hkind
      cases hkind
    | none =>
      rw [hlookup] at hkind
      generalize flow.carried = carried at hdenotes
      cases hdenotes with
      | literal hliteral => cases hliteral
      | name hget =>
        rw [Heap.get?, hlookup] at hget
        cases hget
      | this => cases hkind
      | kind => exact ⟨_, rfl⟩
  · cases hkind

end Evaluator

/-- Evaluating a literal or a variable changes nothing. -/
theorem evaluate_operand (host : Host) (depth : Nat) {node : Node} (hnode : node.isOperand)
    (scope : Scope) (env : Env) (s : State) :
    Ends (evaluate host depth node scope) env s
      (fun flow s' => s' = s ∧ s.heap.Denotes scope node flow.carried) (· = s) := by
  match depth, node with
  | 0, _ => rfl
  | depth + 1, .leaf p operand =>
    refine Ends.stamp ?_ p
    cases operand with
    | name name =>
      refine (Evaluator.nameValue_ends scope name p env s).bind ?_
      rintro value s' ⟨rfl, hvalue⟩
      exact Ends.pure ⟨rfl, hvalue⟩
    | stop | declare => cases hnode
    | null | bool | number | text | phone | word | feature =>
      exact Ends.pure ⟨rfl, .literal rfl⟩

/-- A literal or a variable that is evaluated has a value, and nothing changes. -/
theorem evaluate_operand_done {depth : Nat} {node : Node} (hnode : node.isOperand) {scope : Scope}
    {env : Env} {s s' : State} {flow : Flow}
    (h : evaluate host depth node scope env s = .done flow s') :
    s' = s ∧ ∃ value, flow = .value value ∧ s.heap.Denotes scope node value := by
  have hends := evaluate_operand host depth hnode scope env s
  rw [Ends, h] at hends
  obtain ⟨rfl, hdenotes⟩ := hends
  refine ⟨rfl, ?_⟩
  cases depth with
  | zero => cases h
  | succ depth =>
    cases node with
    | leaf p operand =>
      rw [evaluate, stamp_eq_done_iff] at h
      cases operand with
      | name =>
        obtain ⟨value, s₁, -, hpure⟩ := bind_eq_done_iff.mp h
        cases hpure
        exact ⟨value, rfl, hdenotes⟩
      | stop | declare => cases hnode
      | null | bool | number | text | phone | word | feature =>
        cases h
        exact ⟨_, rfl, hdenotes⟩
    | _ => cases hnode

end SoundLaw
