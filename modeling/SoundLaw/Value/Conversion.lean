import SoundLaw.Text.Blank
import SoundLaw.Value.Phonology

/-!
# Conversions and parts of values

How values are read as other kinds of values, what they consist of, and how many parts they
have. Structures are left to their hooks.
-/

namespace SoundLaw.Value

/-- The elements that a value is made of. -/
def elements (operation : String) : Value → Except Fault (List Value)
  | null => .ok []
  | vector elements => .ok elements
  | text t => .ok (t.toList.map fun c => text c.toString)
  | word w => .ok (w.phones.map phone)
  | matrix m => .ok (m.entries.map feature)
  | dictionary entries => .ok (entries.map fun entry => text entry.1)
  | other => .error (other.unfit operation)

/-- The number that a value writes. -/
def numberOf : Value → Except Fault Float
  | number x => .ok x
  | bool b => .ok (if b then 1.0 else 0.0)
  | text t =>
    match Decimal.read (Text.trim t) with
    | some x => .ok x
    | none => .error (.failed (backquoted t ++ " is not a number"))
  | other => .error (other.unfit "convert to a number")

/-- The matrix of a phone, of several features and matrices, or of a single one. -/
def matrixFrom (table : Table) : Value → Except Fault Matrix
  | phone p => .ok p.matrix
  | vector elements => matrixOf table elements
  | other => matrixOf table [other]

/-- The number of parts of a value. -/
def size : Value → Except Fault Nat
  | text t => .ok t.length
  | vector elements => .ok elements.length
  | dictionary entries => .ok entries.length
  | matrix m => .ok m.size
  | word w => .ok w.length
  | other => .error (other.unfit "take the length of")

/-- The part of a value at an index; dictionaries are asked by key instead. -/
def part (table : Table) (value index : Value) : Except Fault Value :=
  match value with
  | vector elements => do
    let i ← index.asIndex elements.length
    return (elements[i]?).getD null
  | text t => do
    let characters := t.toList
    let i ← index.asIndex characters.length
    return (characters[i]?).elim null fun c => text c.toString
  | word w => do
    let i ← index.asIndex w.length
    return (w.phone? i).elim null phone
  | matrix m =>
    match index with
    | text name =>
      if table.hasFeature name then .ok (feature ⟨name, m.get name⟩)
      else .error (.failed (backquoted name ++ " is not a feature"))
    | other => .error (other.unfit "index a matrix with")
  | other => .error (other.unfit "index")

end SoundLaw.Value
