import SoundLaw.Table.Loading
import SoundLaw.Word

/-!
# The registry of phones

Base phones and variants are registered by their matrices, so that every matrix has one phone.
Of the symbols derived for a matrix the shortest is canonical, and among those of one length the
first in the order of code points. A matrix that nobody registered is looked up by the first
phone that has all its features, or becomes an unknown phone.
-/

namespace SoundLaw

/-- Whether a symbol is preferred to another: fewer characters, then the smaller one. -/
def precedes (a b : String) : Bool :=
  a.length < b.length || (a.length == b.length && a < b)

/-- The preferred one of some symbols, given one of them. -/
def canonical (first : String) (others : List String) : String :=
  others.foldl (fun best symbol => if precedes symbol best then symbol else best) first

/-- Adds a symbol to the phone that has its matrix, or registers a new phone after the others. -/
def register (symbol : String) (matrix : Matrix) : List Phone → List Phone
  | [] => [⟨symbol, matrix⟩]
  | phone :: rest =>
    if phone.matrix == matrix then
      { phone with symbol := canonical phone.symbol [symbol] } :: rest
    else phone :: register symbol matrix rest

/-- The phones of some derivations in the order in which their matrices first appear. -/
def registry (derivations : List (String × Matrix)) : List Phone :=
  derivations.foldl (fun phones (symbol, matrix) => register symbol matrix phones) []

/-- A phone table: what is needed to read, look up and print phones. -/
structure Table where
  /-- The features in the order of the header. -/
  features : List String
  /-- Which features govern which. -/
  classes : MajorClasses
  /-- The base phones in the order of the rows. -/
  bases : List (String × Matrix)
  /-- The registered phones. -/
  phones : List Phone
  /-- The articulations that the table allows. -/
  articulations : List Articulation
deriving Repr, Inhabited

namespace Table

/-- The table made of base phones and all their variants. -/
def ofBases (base : BaseTable) : Table where
  features := base.features
  classes := base.classes
  bases := base.bases
  phones := registry base.derivations
  articulations := base.articulations

/-- The table without features and phones. -/
def empty : Table :=
  ofBases .empty

/-- The table that a text writes. -/
def ofText (source : String) : Except Fault Table :=
  (BaseTable.load source).map ofBases

/-- Whether a feature is named in the header. -/
def hasFeature (table : Table) (name : String) : Bool :=
  table.features.contains name

/-- The base phone of a symbol; the last row of a symbol counts. -/
def base? (table : Table) (symbol : String) : Option Matrix :=
  (table.bases.reverse.find? (·.1 == symbol)).map (·.2)

/-- The registered phone of a matrix. -/
def get? (table : Table) (matrix : Matrix) : Option Phone :=
  table.phones.find? (·.matrix == matrix)

/-- Whether a matrix is registered. -/
def contains (table : Table) (matrix : Matrix) : Bool :=
  (table.get? matrix).isSome

/-- The articulation that a mark writes. -/
def articulation? (table : Table) (mark : Char) : Option Articulation :=
  table.articulations.find? (·.symbol == mark)

/-- Whether a character is a diacritic of the table. -/
def isDiacritic (table : Table) (mark : Char) : Bool :=
  (table.articulation? mark).isSome

/-- The first registered phone that has all the features asked for. -/
def fuzzySearch (table : Table) (target : Matrix) : Option Phone :=
  table.phones.find? (·.matrix.hasFeatures target)

/-- The symbol of a phone that no registered phone stands for. -/
def unknownSymbol : String := "*"

/-- The registered phone of a matrix, else a fuzzy match if one is wanted, else an unknown
phone. -/
def lookUp (table : Table) (matrix : Matrix) (search : Bool) : Phone :=
  match table.get? matrix with
  | some phone => phone
  | none =>
    match if search then table.fuzzySearch matrix else none with
    | some phone => phone
    | none => ⟨unknownSymbol, matrix⟩

/-- The phone that a change makes of a phone. -/
def transform (table : Table) (phone : Phone) (delta : Matrix) (search : Bool) : Phone :=
  table.lookUp (phone.matrix.transform table.classes delta) search

end Table

/-- The features on which all phones agree, in the order of the first one. -/
def commonFeatures : List Phone → Matrix
  | [] => .empty
  | first :: rest =>
    first.matrix.entries.foldl
      (fun common entry =>
        if rest.all fun phone => phone.matrix.get entry.name == entry.quality then
          common.put entry.name entry.quality
        else common)
      .empty

/-- The features that the second phone specifies differently from the first. -/
def contrast (a b : Phone) : Matrix :=
  b.matrix.entries.foldl
    (fun contrast entry =>
      if a.matrix.get entry.name != entry.quality then contrast.put entry.name entry.quality
      else contrast)
    .empty

/-- The phones that have every feature of a pattern. -/
def phonesWith (pattern : Matrix) (phones : List Phone) : List Phone :=
  phones.filter (·.matrix.hasFeatures pattern)

end SoundLaw
