import SoundLaw.Matrix

/-!
# Phones and words

A phone is a speech sound: a symbol for display and the matrix that makes it what it is. Two
phones are the same when their matrices are. A word is a sequence of phones, each with the
boundary marker written before it.
-/

namespace SoundLaw

/-- A speech sound. -/
structure Phone where
  /-- How the phone is written. -/
  symbol : String
  /-- What the phone is. -/
  matrix : Matrix
deriving Repr, Inhabited

/-- Phones are compared by their matrices alone. -/
instance : BEq Phone := ⟨fun a b => a.matrix == b.matrix⟩

/-- The boundary written before a phone. -/
inductive Marker where
  | plain
  | syllable
  | morpheme
deriving DecidableEq, Repr, Inhabited

namespace Marker

/-- The boundary that a character writes. -/
def ofChar? : Char → Option Marker
  | '.' => some syllable
  | '+' => some morpheme
  | _ => none

/-- The written form of a marker. -/
def symbol : Marker → String
  | plain => ""
  | syllable => "."
  | morpheme => "+"

end Marker

/-- A sequence of phones with their markers. -/
structure Word where
  /-- The phones in order, each behind its marker. -/
  slots : List (Marker × Phone)
deriving Repr, Inhabited

namespace Word

/-- The word without phones. -/
def empty : Word := ⟨[]⟩

/-- The number of phones. -/
def length (w : Word) : Nat :=
  w.slots.length

/-- The phones in order. -/
def phones (w : Word) : List Phone :=
  w.slots.map (·.2)

/-- The markers in order. -/
def markers (w : Word) : List Marker :=
  w.slots.map (·.1)

/-- The phone at an index. -/
def phone? (w : Word) (index : Nat) : Option Phone :=
  w.slots[index]?.map (·.2)

/-- The marker before an index; there is none outside the word. -/
def marker (w : Word) (index : Nat) : Marker :=
  match w.slots[index]? with
  | some slot => slot.1
  | none => .plain

/-- The word with one more phone at its end. -/
def push (w : Word) (marker : Marker) (phone : Phone) : Word :=
  ⟨w.slots ++ [(marker, phone)]⟩

/-- One word after another. -/
def append (w other : Word) : Word :=
  ⟨w.slots ++ other.slots⟩

/-- The word of some phones without markers. -/
def ofPhones (phones : List Phone) : Word :=
  ⟨phones.map fun phone => (Marker.plain, phone)⟩

/-- The phones in reverse order. A marker belongs to the gap before its phone, so it moves to
the phone on the other side of the gap, and one before the first phone is dropped. -/
def reverse (w : Word) : Word :=
  ⟨((w.markers.drop 1 ++ [Marker.plain]).zip w.phones).reverse⟩

/-- Words are the same when their phones and markers are. -/
instance : BEq Word := ⟨fun a b => a.phones == b.phones && a.markers == b.markers⟩

/-- The transcription of a word. -/
def render (w : Word) : String :=
  String.join (w.slots.map fun slot => slot.1.symbol ++ slot.2.symbol)

end Word

end SoundLaw
