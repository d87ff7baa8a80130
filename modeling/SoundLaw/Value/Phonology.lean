import SoundLaw.Table.Transcription
import SoundLaw.Value

/-!
# Phonological values

Operations on phones, words, matrices, features and rules as values of a script. A feature
stands for the matrix with that one feature wherever a matrix is wanted.

The parts of a rule are values too: its search and its replacements are phones, matrices or
features, and its contexts may hold boundaries, which are written as texts.
-/

namespace SoundLaw

namespace Value

/-- The matrix that a value stands for in a change or a search. -/
def pattern? : Value → Option Matrix
  | matrix m => some m
  | feature f => some (.ofFeature f)
  | _ => none

/-- The matrix in which features and matrices are set one after another. -/
def matrixOf (table : Table) (elements : List Value) : Except Fault Matrix :=
  elements.foldlM
    (fun m element =>
      match element with
      | feature f => .ok (m.set table.classes f.name f.quality)
      | matrix delta => .ok (m.transform table.classes delta)
      | other => .error (other.unfit "put in a matrix"))
    .empty

/-- A value that has to be a phone. -/
def asPhone (operation : String) : Value → Except Fault Phone
  | phone p => .ok p
  | other => .error (other.unfit operation)

/-- The phones of a word, of a vector of phones or of a single phone. -/
def phonesOf (operation : String) : Value → Except Fault (List Phone)
  | phone p => .ok [p]
  | word w => .ok w.phones
  | vector elements => elements.mapM (asPhone operation)
  | other => .error (other.unfit operation)

/-- Applies rules to a word one after another. -/
def applyRules (table : Table) (w : Word) (rules : List Value) : Except Fault Word :=
  rules.foldlM
    (fun w value =>
      match value with
      | rule r => .ok (r.transform table w)
      | other => .error (other.unfit "apply as a rule"))
    w

/-- Changes a phone or a matrix by a matrix, or a phone or a word by a rule or several rules. -/
def transform (table : Table) (a b : Value) : Except Fault Value :=
  match a, b with
  | phone p, rule r => .ok (word (r.transform table (.ofPhones [p])))
  | word w, rule r => .ok (word (r.transform table w))
  | word w, vector rules => (applyRules table w rules).map word
  | phone p, change =>
    match change.pattern? with
    | some delta => .ok (phone (table.transform p delta true))
    | none => .error (unfitPair "transform" a b)
  | matrix m, change =>
    match change.pattern? with
    | some delta => .ok (matrix (m.transform table.classes delta))
    | none => .error (unfitPair "transform" a b)
  | _, _ => .error (unfitPair "transform" a b)

/-- The features by which the second of two phones differs from the first. -/
def contrast : Value → Value → Except Fault Value
  | phone p, phone q => .ok (matrix (SoundLaw.contrast p q))
  | a, b => .error (unfitPair "contrast" a b)

/-- The phones among some that have the features of a pattern. -/
def among (pattern phones : Value) : Except Fault Value :=
  match pattern.pattern? with
  | some m => (phones.phonesOf "search among").map fun found =>
    vector ((phonesWith m found).map phone)
  | none => .error (pattern.unfit "search with")

/-- The word that a value spells, if reading it comes to an end. -/
def wordOf (table : Table) : Value → Option (Except Fault Word)
  | word w => some (.ok w)
  | text transcription => table.readWord transcription
  | other => some ((other.phonesOf "convert to a word").map .ofPhones)

/-- A segment of a rule. -/
def asSegment : Value → Except Fault Segment
  | phone p => .ok (.literal p)
  | matrix m => .ok (.pattern m)
  | feature f => .ok (.pattern (.ofFeature f))
  | other => .error (other.unfit "use as a rule segment")

end Value

/-- The two sides of a rule's focus. -/
inductive Side where
  | left
  | right
deriving DecidableEq, Repr

/-- The boundary that a text writes; the edge of a word is the one on the given side. -/
def Boundary.read (side : Side) (text : String) : Except Fault Boundary :=
  match text, side with
  | "#", .left | "^", _ => .ok .wordStart
  | "#", .right => .ok .wordEnd
  | "$", _ | ".", _ => .ok .syllableEdge
  | "+", _ => .ok .morphemeEdge
  | _, _ => .error (.failed (backquoted text ++ " is not a boundary"))

namespace Value

/-- An entry of a context. -/
def asEntry (side : Side) : Value → Except Fault ContextEntry
  | text t => (Boundary.read side t).map .boundary
  | other => other.asSegment.map .segment

/-- A context: nothing, several entries, the phones of a word or a single entry. -/
def asContext (side : Side) : Value → Except Fault (List ContextEntry)
  | null => .ok []
  | vector entries => entries.mapM (asEntry side)
  | word w => .ok (w.phones.map fun p => .segment (.literal p))
  | other => (other.asEntry side).map ([·])

/-- A replacement: nothing, several segments, the phones of a word or a single segment. -/
def asReplacement : Value → Except Fault (List Segment)
  | null => .ok []
  | vector segments => segments.mapM asSegment
  | word w => .ok (w.phones.map .literal)
  | other => other.asSegment.map ([·])

/-- A search; null makes a rule that only inserts. -/
def asSearch : Value → Except Fault (Option Segment)
  | null => .ok none
  | other => other.asSegment.map some

/-- The rule made of its parts. -/
def ruleOf (kind : RuleKind) (search replacement left right : Value) : Except Fault Rule := do
  let search ← search.asSearch
  let replacement ← replacement.asReplacement
  let left ← left.asContext .left
  let right ← right.asContext .right
  return ⟨kind, search, left, right, replacement⟩

end Value

end SoundLaw
