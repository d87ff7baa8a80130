import SoundLaw.Articulation
import SoundLaw.Fault
import SoundLaw.Text.Letter
import SoundLaw.Text.Split

/-!
# Reading a table of base phones

A table is written as lines of cells divided by tabs. The first line that is not blank names the
features; its first cell is the word SEGMENT in any case. A name in capital letters opens a
class, and the names after it are its dependents. Every other line that is not blank gives a
segment and the quality of each feature.
-/

namespace SoundLaw

/-- The base phones of a table as they were read. -/
structure BaseTable where
  /-- The features in the order of the header. -/
  features : List String
  /-- Which features govern which. -/
  classes : MajorClasses
  /-- The base phones in the order of the rows. -/
  bases : List (String × Matrix)
deriving Repr, Inhabited

namespace BaseTable

/-- The table without features and phones. -/
def empty : BaseTable := ⟨[], .empty, []⟩

/-- Whether a feature name opens a class: it has a capital letter and no small one. -/
def opensClass (name : String) : Bool :=
  name.toList.any Text.isUppercase && !name.toList.any Text.isLowercase

/-- A fault in a line of the table. -/
def malformed (line : Nat) (reason : String) : Fault :=
  .startup (.malformed line reason)

/-- The trimmed cells of a line. -/
def cells (line : String) : List String :=
  (Text.splitAtChar '\t' line).map Text.trim

/-- The classes that feature names open and fill when they follow the class `major`. -/
def classesOf : Option String → MajorClasses → List String → MajorClasses
  | _, classes, [] => classes
  | major, classes, name :: rest =>
    if opensClass name then classesOf (some name) (classes.addClass name) rest
    else
      match major with
      | some major => classesOf (some major) (classes.addDependent major name) rest
      | none => classesOf none classes rest

/-- Reads the header. -/
def readHeader (line : Nat) (header : String) : Except Fault BaseTable :=
  match cells header with
  | [] => .error (malformed line "the header must start with SEGMENT")
  | first :: features =>
    if first.map Char.toUpper = "SEGMENT" then
      .ok ⟨features, classesOf none .empty features, []⟩
    else .error (malformed line "the header must start with SEGMENT")

/-- The quality that a cell writes; variables have no place in a table. -/
def cellQuality? (cell : String) : Option Quality :=
  match cell.toList with
  | [symbol] => (Quality.ofSymbol? symbol).filter (!·.isVariable)
  | _ => none

/-- Sets one feature after another to the quality in its cell. -/
def readCells (classes : MajorClasses) (line : Nat) :
    Matrix → List (String × String) → Except Fault Matrix
  | matrix, [] => .ok matrix
  | matrix, (feature, cell) :: rest =>
    match cellQuality? cell with
    | some quality => readCells classes line (matrix.set classes feature quality) rest
    | none => .error (malformed line (backquoted cell ++ " is not a quality"))

/-- Reads the row of one base phone. -/
def readRow (table : BaseTable) (line : Nat) (row : String) : Except Fault BaseTable :=
  let found := cells row
  let expected := table.features.length + 1
  if found.length ≠ expected then
    .error (malformed line ("expected " ++ toString expected ++ " columns but found " ++
      toString found.length))
  else
    match found with
    | [] => .ok table
    | segment :: qualities => do
      let matrix ← readCells table.classes line .empty (table.features.zip qualities)
      return { table with bases := table.bases ++ [(segment, matrix)] }

/-- The lines that are not blank, with their numbers. -/
def numberedLines (source : String) : List (Nat × String) :=
  (((Text.splitAtChar '\n' source).zipIdx 1).map fun (line, number) => (number, line)).filter
    fun (_, line) => !(Text.trim line).isEmpty

/-- Reads a whole table. -/
def load (source : String) : Except Fault BaseTable :=
  match numberedLines source with
  | [] => .error (malformed 1 "missing header row")
  | (line, header) :: rows => do
    let start ← readHeader line header
    rows.foldlM (fun table (line, row) => table.readRow line row) start

/-- The articulations that the features of the table allow. -/
def articulations (table : BaseTable) : List Articulation :=
  Articulation.standard table.features

/-- Every symbol with its matrix: the base phones as read, then the variants of each in turn. -/
def derivations (table : BaseTable) : List (String × Matrix) :=
  table.bases ++ table.bases.flatMap fun (symbol, matrix) =>
    Articulation.expand table.articulations table.classes symbol matrix

end BaseTable

end SoundLaw
