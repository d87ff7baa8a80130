/-!
# Interning names

An interner hands out numbers for names: equal names share a number, and a number once handed
out keeps its name. A caller first looks for the name and, when it is missing, enters it; the
entry looks again, because another caller may have entered the name in between.
-/

namespace SoundLaw

/-- The names entered so far; the number of a name is its place in the list. -/
structure Interner where
  /-- The names in the order of their entry. -/
  names : List String
deriving DecidableEq, Repr, Inhabited

namespace Interner

/-- The interner without names. -/
def empty : Interner := ⟨[]⟩

/-- How many names have been entered. -/
def size (interner : Interner) : Nat :=
  interner.names.length

/-- The number of a name, if it has been entered. -/
def find? (interner : Interner) (name : String) : Option Nat :=
  interner.names.idxOf? name

/-- The name of a number, if it has been handed out. -/
def resolve? (interner : Interner) (number : Nat) : Option String :=
  interner.names[number]?

/-- The display form of a number that has no name. -/
def numeral (number : Nat) : String :=
  "#" ++ toString number

/-- The name of a number, or its display form. -/
def nameOf (interner : Interner) (number : Nat) : String :=
  (interner.resolve? number).getD (numeral number)

/-- Enters a name unless it is there, and gives its number. -/
def enter (interner : Interner) (name : String) : Nat × Interner :=
  match interner.find? name with
  | some number => (number, interner)
  | none => (interner.size, ⟨interner.names ++ [name]⟩)

/-- Looks for a name and enters it if the search fails. -/
def intern (interner : Interner) (name : String) : Nat × Interner :=
  match interner.find? name with
  | some number => (number, interner)
  | none => interner.enter name

end Interner

end SoundLaw
