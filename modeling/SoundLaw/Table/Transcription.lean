import SoundLaw.Table.Registry

/-!
# Reading transcriptions

A transcription is a sequence of segments. A segment is the shortest run of characters that
spells a base phone, where a tie bar joins the run to its next character, followed by
diacritics. Boundary characters stand before a segment, and the last one counts.

Reading goes on round by round, a boundary character or a segment each, until no character is left.
Whether that happens depends on the base phones, so a reading may have no outcome.
-/

namespace SoundLaw.Table

/-- The tie bar, which joins a run of characters to the next one. -/
def tie : Char := '_'

/-- Extends a run until it spells a base phone and no tie bar follows; gives the run and what
follows it. -/
def takeBase (table : Table) (run : String) : List Char → String × List Char
  | [] => (run, [])
  | c :: rest =>
    if c = tie || (table.base? run).isNone then table.takeBase (run.push c) rest
    else (run, c :: rest)

/-- A base run, the diacritics after it and what follows them. -/
def takeSegment (table : Table) (cs : List Char) : String × List Char × List Char :=
  let (run, rest) := table.takeBase "" cs
  (run, rest.takeWhile table.isDiacritic, rest.dropWhile table.isDiacritic)

/-- Applies diacritics one after another to a phone that already carries some. -/
def applyMarks (table : Table) :
    String → Matrix → List Diacritic → List Char → Except Fault (String × Matrix)
  | symbol, matrix, _, [] => .ok (symbol, matrix)
  | symbol, matrix, applied, mark :: rest =>
    match (table.articulation? mark).filter (·.canApply matrix applied) with
    | some articulation =>
      table.applyMarks (symbol.push mark) (articulation.apply table.classes matrix)
        (applied ++ [articulation.kind]) rest
    | none => .error (.raised (.inapplicableDiacritic mark.toString symbol))

/-- The phone of a base run and its diacritics. -/
def readSegment (table : Table) (run : String) (marks : List Char) : Except Fault Phone :=
  match table.base? run with
  | none => .error (.raised (.unknownPhone run))
  | some base => do
    let (symbol, matrix) ← table.applyMarks run base [] marks
    return (table.get? matrix).getD ⟨symbol, matrix⟩

/-- How far the reading of a transcription has come. -/
structure Reading where
  /-- The phones read so far. -/
  word : Word
  /-- The boundary written last, if no phone has followed it. -/
  marker : Marker
  /-- The characters left to read. -/
  rest : List Char
deriving Repr, Inhabited

namespace Reading

/-- The reading of a transcription before its first character. -/
def start (transcription : String) : Reading :=
  ⟨.empty, .plain, transcription.toList⟩

/-- One round of reading: a boundary is remembered until the next phone, and a segment becomes a
phone behind the boundary remembered last. -/
def advance (table : Table) (reading : Reading) : Except Fault Reading :=
  match reading.rest with
  | [] => .ok reading
  | c :: rest =>
    match Marker.ofChar? c with
    | some boundary => .ok { reading with marker := boundary, rest := rest }
    | none =>
      let (run, marks, after) := table.takeSegment (c :: rest)
      match table.readSegment run marks with
      | .error fault => .error fault
      | .ok phone => .ok ⟨reading.word.push reading.marker phone, .plain, after⟩

/-- The word of a finished reading, in which every boundary has to stand before a phone. -/
def conclude (transcription : String) (reading : Reading) : Except Fault Word :=
  if reading.marker = .plain then .ok reading.word
  else .error (.raised (.danglingBoundary transcription))

end Reading

/-- Reads round after round until no character is left. A base phone without characters lets a
segment end where it begins; a reading that comes upon one never ends and has no outcome. -/
def readOn (table : Table) (reading : Reading) : Option (Except Fault Reading) :=
  if reading.rest.isEmpty then some (.ok reading)
  else
    match reading.advance table with
    | .error fault => some (.error fault)
    | .ok next => table |>.readOn next
partial_fixpoint

/-- A reading with nothing left to read is over. -/
theorem readOn_of_rest_eq_nil {table : Table} {reading : Reading} (hrest : reading.rest = []) :
    table.readOn reading = some (.ok reading) := by
  rw [readOn, hrest]
  rfl

/-- A reading goes on as it does after its next round. -/
theorem readOn_of_advance_eq_ok {table : Table} {reading next : Reading}
    (hrest : reading.rest ≠ []) (hround : reading.advance table = .ok next) :
    table.readOn reading = table.readOn next := by
  rw [readOn, if_neg (by simpa using hrest), hround]

/-- A reading is over when its next round fails. -/
theorem readOn_of_advance_eq_error {table : Table} {reading : Reading} {fault : Fault}
    (hrest : reading.rest ≠ []) (hround : reading.advance table = .error fault) :
    table.readOn reading = some (.error fault) := by
  rw [readOn, if_neg (by simpa using hrest), hround]

/-- Reads a transcription into a word. A reading without end gives neither a word nor a fault. -/
def readWord (table : Table) (transcription : String) : Option (Except Fault Word) :=
  (table.readOn (.start transcription)).map fun outcome => outcome.bind (·.conclude transcription)

/-- The phone of a word of a single phone without a marker. -/
def onlyPhone (transcription : String) (word : Word) : Except Fault Phone :=
  match word.slots with
  | [(.plain, phone)] => .ok phone
  | _ => .error (.raised (.unknownPhone transcription))

/-- Reads a transcription of a single phone without a marker. -/
def readPhone (table : Table) (transcription : String) : Option (Except Fault Phone) :=
  (table.readWord transcription).map fun outcome => outcome.bind (onlyPhone transcription)

end SoundLaw.Table
