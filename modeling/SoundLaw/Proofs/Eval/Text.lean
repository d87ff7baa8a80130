import SoundLaw.Eval.Hook
import SoundLaw.Proofs.Eval.Endings

/-!
# Texts that no instance gives

The text of a value is made by the instances inside it that have a method for it. If there is no
such instance, nothing is called: the text is the plain one, and finding it changes nothing. The
same holds for the key of a value in a dictionary.
-/

namespace SoundLaw

namespace Value

mutual

/-- The structures inside a value, those in vectors and dictionaries included. -/
def structs : Value → List StructId
  | vector elements => structsOfAll elements
  | dictionary entries => structsOfEntries entries
  | struct id => [id]
  | _ => []

/-- The structures inside several values. -/
def structsOfAll : List Value → List StructId
  | [] => []
  | value :: rest => value.structs ++ structsOfAll rest

/-- The structures inside the values of several entries. -/
def structsOfEntries : List (String × Value) → List StructId
  | [] => []
  | (_, value) :: rest => value.structs ++ structsOfEntries rest

end

/-- No instance inside a value has a method for its text or for its key. -/
def Silent (heap : Heap) (value : Value) : Prop :=
  ∀ id ∈ value.structs,
    (heap.hooks? id).bind (·.text) = none ∧ (heap.hooks? id).bind (·.key) = none

end Value

namespace Evaluator

variable (e : Evaluator) (env : Env) (s : State)

mutual

/-- The text of a value is the plain one if no instance inside it has a method for its text. -/
theorem textOf_eq_render : ∀ value : Value,
    (∀ id ∈ value.structs, (s.heap.hooks? id).bind (·.text) = none) →
      e.textOf value env s = .done (value.render s.heap.describe) s
  | .vector elements, hsilent => by
    have hall := textsOf_eq_renderAll elements hsilent
    rw [textOf, Value.render, Eval.bind_of_done hall]
    rfl
  | .dictionary entries, hsilent => by
    have hall := entryTextsOf_eq_renderEntries entries hsilent
    rw [textOf, Value.render, Eval.bind_of_done hall]
    rfl
  | .struct id, hsilent => by
    have hnone := hsilent id List.mem_cons_self
    have hhook : hook? (·.text) id env s = .done none s := by
      rw [← hnone]
      rfl
    rw [textOf, Eval.bind_of_done hhook]
    rfl
  | .null, _ | .bool _, _ | .number _, _ | .text _, _ | .matrix _, _ | .feature _, _
  | .phone _, _ | .word _, _ | .rule _, _ | .function _, _ | .task _, _ => rfl

/-- The texts of several values are the plain ones. -/
theorem textsOf_eq_renderAll : ∀ values : List Value,
    (∀ id ∈ Value.structsOfAll values, (s.heap.hooks? id).bind (·.text) = none) →
      e.textsOf values env s = .done (Value.renderAll s.heap.describe values) s
  | [], _ => rfl
  | value :: rest, hsilent => by
    have hfirst := textOf_eq_render value fun id hid => hsilent id (List.mem_append_left _ hid)
    have hrest := textsOf_eq_renderAll rest fun id hid =>
      hsilent id (List.mem_append_right _ hid)
    rw [textsOf, Value.renderAll, Eval.bind_of_done hfirst, Eval.bind_of_done hrest]
    rfl

/-- The texts of several entries are the plain ones. -/
theorem entryTextsOf_eq_renderEntries : ∀ entries : List (String × Value),
    (∀ id ∈ Value.structsOfEntries entries, (s.heap.hooks? id).bind (·.text) = none) →
      e.entryTextsOf entries env s = .done (Value.renderEntries s.heap.describe entries) s
  | [], _ => rfl
  | (key, value) :: rest, hsilent => by
    have hfirst := textOf_eq_render value fun id hid => hsilent id (List.mem_append_left _ hid)
    have hrest := entryTextsOf_eq_renderEntries rest fun id hid =>
      hsilent id (List.mem_append_right _ hid)
    rw [entryTextsOf, Value.renderEntries, Eval.bind_of_done hfirst, Eval.bind_of_done hrest]
    rfl

end

variable {s}

/-- The key of a value is its plain text if no instance inside it has a say. -/
theorem keyOf_eq_render {value : Value} (hsilent : value.Silent s.heap) :
    e.keyOf value env s = .done (value.render s.heap.describe) s := by
  have htext := textOf_eq_render e env s value fun id hid => (hsilent id hid).1
  cases value with
  | struct id =>
    have hnone := (hsilent id List.mem_cons_self).2
    have hhook : hook? (·.key) id env s = .done none s := by
      rw [← hnone]
      rfl
    rw [keyOf, Eval.bind_of_done hhook]
    exact htext
  | _ => exact htext

end Evaluator

end SoundLaw
