import SoundLaw.Matrix

/-!
# Secondary articulations

A diacritic changes some features of the phone it is written on. It may be applied when the
phone meets one of its requirements and no articulation that excludes it, nor itself, has been
applied before. A phone table has those of the standard articulations whose features it names
all.

The variants of a base phone are all the ways to stack articulations on it in their standard
order, found depth first: each variant is followed by the variants built on it.
-/

namespace SoundLaw

/-- The kinds of secondary articulation. -/
inductive Diacritic where
  | vocalic
  | retracted
  | advanced
  | palatoalveolar
  | dental
  | devoicing
  | nasalization
  | labialization
  | palatalization
  | velarization
  | pharyngealization
  | aspiration
  | length
deriving DecidableEq, Repr, Inhabited

namespace Diacritic

/-- All kinds in the order in which variants are derived. -/
def all : List Diacritic :=
  [vocalic, retracted, advanced, palatoalveolar, dental, devoicing, nasalization, labialization,
    palatalization, velarization, pharyngealization, aspiration, length]

/-- The name of a kind. -/
def name : Diacritic → String
  | vocalic => "Vocalic"
  | retracted => "Retracted"
  | advanced => "Advanced"
  | palatoalveolar => "Palatoalveolar"
  | dental => "Dental"
  | devoicing => "Devoicing"
  | nasalization => "Nasalization"
  | labialization => "Labialization"
  | palatalization => "Palatalization"
  | velarization => "Velarization"
  | pharyngealization => "Pharyngealization"
  | aspiration => "Aspiration"
  | length => "Length"

/-- The kind of a given name. -/
def ofName? (text : String) : Option Diacritic :=
  all.find? (·.name == text)

/-- The mark that writes a kind. -/
def symbol : Diacritic → Char
  | vocalic => '\u0329'
  | retracted => '\u0320'
  | advanced => '\u031F'
  | palatoalveolar => '\u033A'
  | dental => '\u032A'
  | devoicing => '\u0325'
  | nasalization => '\u0303'
  | labialization => 'ʷ'
  | palatalization => 'ʲ'
  | velarization => 'ˠ'
  | pharyngealization => 'ˤ'
  | aspiration => 'ʰ'
  | length => 'ː'

/-- The features that a kind sets, in the order of setting. -/
def change : Diacritic → List Feature
  | vocalic => [⟨"syl", .plus⟩]
  | retracted => [⟨"front", .minus⟩, ⟨"back", .plus⟩]
  | advanced => [⟨"front", .plus⟩, ⟨"back", .minus⟩]
  | palatoalveolar => [⟨"ant", .minus⟩, ⟨"dist", .plus⟩]
  | dental => [⟨"ant", .plus⟩, ⟨"dist", .plus⟩]
  | devoicing => [⟨"voice", .minus⟩]
  | nasalization => [⟨"nasal", .plus⟩]
  | labialization => [⟨"LAB", .plus⟩, ⟨"round", .plus⟩]
  | palatalization =>
    [⟨"DOR", .plus⟩, ⟨"high", .plus⟩, ⟨"low", .minus⟩, ⟨"front", .plus⟩, ⟨"back", .minus⟩]
  | velarization =>
    [⟨"DOR", .plus⟩, ⟨"high", .plus⟩, ⟨"low", .minus⟩, ⟨"front", .minus⟩, ⟨"back", .plus⟩]
  | pharyngealization =>
    [⟨"DOR", .plus⟩, ⟨"high", .minus⟩, ⟨"low", .plus⟩, ⟨"front", .minus⟩, ⟨"back", .plus⟩]
  | aspiration => [⟨"sg", .plus⟩, ⟨"cg", .minus⟩]
  | length => [⟨"long", .plus⟩]

/-- The kinds that may not come before a kind. -/
def excludedBy : Diacritic → List Diacritic
  | retracted => [advanced]
  | advanced => [retracted]
  | palatoalveolar => [dental]
  | dental => [palatoalveolar]
  | palatalization => [velarization, pharyngealization]
  | velarization => [palatalization, pharyngealization]
  | pharyngealization => [velarization, palatalization]
  | _ => []

/-- The requirement met by consonants and glides. -/
def nonsyllabic : List (List Feature) :=
  [[⟨"cons", .plus⟩, ⟨"syl", .minus⟩], [⟨"cons", .minus⟩, ⟨"syl", .minus⟩]]

/-- The requirement met by consonants and glides that are not back. -/
def frontable : List (List Feature) :=
  [[⟨"cons", .plus⟩, ⟨"syl", .minus⟩, ⟨"back", .minus⟩],
   [⟨"cons", .minus⟩, ⟨"syl", .minus⟩, ⟨"back", .minus⟩],
   [⟨"cons", .plus⟩, ⟨"syl", .minus⟩, ⟨"back", .unset⟩],
   [⟨"cons", .minus⟩, ⟨"syl", .minus⟩, ⟨"back", .unset⟩]]

/-- The requirement met by coronals. -/
def coronal : List (List Feature) := [[⟨"COR", .plus⟩]]

/-- The alternatives of which a phone has to meet one to carry a kind. -/
def requirements : Diacritic → List (List Feature)
  | vocalic => [[⟨"cons", .plus⟩, ⟨"son", .plus⟩, ⟨"syl", .minus⟩]]
  | retracted | advanced | palatoalveolar | dental => coronal
  | devoicing => [[⟨"voice", .plus⟩]]
  | nasalization => [[⟨"son", .plus⟩, ⟨"nasal", .minus⟩]]
  | labialization | pharyngealization | aspiration => nonsyllabic
  | palatalization | velarization => frontable
  | length => [[⟨"long", .minus⟩]]

end Diacritic

/-- A diacritic as one phone table has it. -/
structure Articulation where
  /-- The kind of articulation. -/
  kind : Diacritic
  /-- The mark that writes it. -/
  symbol : Char
  /-- What it changes. -/
  delta : Matrix
  /-- The kinds that may not come before it. -/
  excluded : List Diacritic
  /-- The alternatives of which a phone has to meet one. -/
  requirements : List (List Feature)
deriving Repr, Inhabited

namespace Articulation

/-- The standard articulation of a kind. -/
def ofKind (kind : Diacritic) : Articulation where
  kind := kind
  symbol := kind.symbol
  delta := kind.change.foldl (fun delta f => delta.put f.name f.quality) Matrix.empty
  excluded := kind.excludedBy
  requirements := kind.requirements

/-- The standard articulations that change only the given features. -/
def standard (features : List String) : List Articulation :=
  (Diacritic.all.filter fun kind => kind.change.all fun f => features.contains f.name).map ofKind

/-- Whether the articulation may follow those applied before on a phone with the given matrix. -/
def canApply (a : Articulation) (m : Matrix) (applied : List Diacritic) : Bool :=
  !(applied.any fun kind => kind == a.kind || a.excluded.contains kind) &&
    a.requirements.any fun pattern => pattern.all fun f => m.get f.name == f.quality

/-- The matrix of a phone that carries the articulation. -/
def apply (a : Articulation) (classes : MajorClasses) (m : Matrix) : Matrix :=
  m.transform classes a.delta

end Articulation

/-- A variant whose own variants are still being listed. -/
structure Derivation where
  /-- How the variant is written. -/
  symbol : String
  /-- What the variant is. -/
  matrix : Matrix
  /-- The articulations on it, in order. -/
  applied : List Diacritic
  /-- The articulations still to be tried on it. -/
  pending : List Articulation
deriving Repr, Inhabited

namespace Derivation

/-- How many steps it may take to try some articulations, each of them on the variants with and
without the ones before it. -/
def trials : List Articulation → Nat
  | [] => 1
  | _ :: later => 2 * trials later + 1

/-- How many steps it may take to finish some derivations. -/
def weight : List Derivation → Nat
  | [] => 0
  | d :: rest => trials d.pending + weight rest

/-- The variant that carries one more articulation, with only the later ones left to try. -/
def extend (d : Derivation) (classes : MajorClasses) (a : Articulation)
    (later : List Articulation) : Derivation where
  symbol := d.symbol.push a.symbol
  matrix := a.apply classes d.matrix
  applied := d.applied ++ [a.kind]
  pending := later

/-- The variants still to be listed, given the unfinished derivations, the deepest one first. -/
def listVariants (classes : MajorClasses) (work : List Derivation) : List (String × Matrix) :=
  match work with
  | [] => []
  | ⟨_, _, _, []⟩ :: rest => listVariants classes rest
  | ⟨symbol, matrix, applied, a :: later⟩ :: rest =>
    let current : Derivation := ⟨symbol, matrix, applied, later⟩
    if a.canApply matrix applied then
      let derived := current.extend classes a later
      (derived.symbol, derived.matrix) :: listVariants classes (derived :: current :: rest)
    else listVariants classes (current :: rest)
termination_by weight work
decreasing_by
  all_goals
    simp only [weight, trials, extend]
    omega

end Derivation

/-- All variants of a base phone with their matrices. -/
def Articulation.expand (articulations : List Articulation) (classes : MajorClasses)
    (symbol : String) (matrix : Matrix) : List (String × Matrix) :=
  Derivation.listVariants classes [⟨symbol, matrix, [], articulations⟩]

end SoundLaw
