import SoundLaw.Proofs.Table.Reading
import SoundLaw.Proofs.Text.Span

/-!
# Reading one transcription after another

To find the end of a segment the reader looks at the characters behind it. A run that spells a base
phone goes on only before a tie bar, and the marks on it only before a diacritic. Once a
transcription has been read to its end no segment is open and no boundary is pending. A second
transcription that starts with neither is therefore read from there as it is read alone, whatever
the symbols of the table are; none of them need be told apart from the others.
-/

namespace SoundLaw.Table

variable {table : Table}

/-! ## One round -/

/-- A run that ended with a base phone ends there also when more is written behind it. -/
theorem takeBase_append_of_isSome {run : String} {cs more : List Char}
    (hfound : (table.base? (table.takeBase run cs).1).isSome)
    (hmore : ∀ c ∈ more.head?, c ≠ tie) :
    table.takeBase run (cs ++ more) =
      ((table.takeBase run cs).1, (table.takeBase run cs).2 ++ more) := by
  induction cs generalizing run with
  | nil =>
    cases more with
    | nil => rfl
    | cons c more => exact takeBase_of_isSome hfound (hmore c rfl) more
  | cons c rest ih =>
    rw [List.cons_append]
    unfold takeBase at hfound ⊢
    split
    · next hgrows =>
      rw [if_pos hgrows] at hfound
      exact ih hfound
    · rfl

/-- A segment that could be read ends in the same place when more is written behind it. -/
theorem takeSegment_append_of_readSegment {cs more marks after : List Char} {run : String}
    {phone : Phone} (htaken : table.takeSegment cs = (run, marks, after))
    (hread : table.readSegment run marks = .ok phone) (hmore : table.Breaks more) :
    table.takeSegment (cs ++ more) = (run, marks, after ++ more) := by
  cases htaken
  have hfound : (table.base? (table.takeBase "" cs).1).isSome := by
    cases hbase : table.base? (table.takeBase "" cs).1 with
    | none => simp [readSegment, hbase] at hread
    | some base => rfl
  have hmarks : ∀ c ∈ more.head?, table.isDiacritic c = false := fun c hc => (hmore c hc).2
  rw [takeSegment, takeBase_append_of_isSome hfound fun c hc => (hmore c hc).1]
  dsimp only
  rw [Text.takeWhile_append_of_head? hmarks, Text.dropWhile_append_of_head? hmarks]

namespace Reading

/-- A round at a boundary character remembers the boundary. -/
theorem advance_boundary {c : Char} {boundary : Marker} (hc : Marker.ofChar? c = some boundary)
    (word : Word) (marker : Marker) (rest : List Char) :
    advance table ⟨word, marker, c :: rest⟩ = .ok ⟨word, boundary, rest⟩ := by
  simp only [advance, hc]

/-- A round at any other character reads a segment. -/
theorem advance_segment {c : Char} (hc : Marker.ofChar? c = none) {rest marks after : List Char}
    {run : String} (htaken : table.takeSegment (c :: rest) = (run, marks, after)) (word : Word)
    (marker : Marker) :
    advance table ⟨word, marker, c :: rest⟩ = (table.readSegment run marks).map fun phone =>
      ⟨word.push marker phone, .plain, after⟩ := by
  simp only [advance, hc, htaken]
  cases table.readSegment run marks with
  | error fault => rfl
  | ok phone => rfl

/-- A round that succeeds succeeds in the same way behind other words and before other
transcriptions, if these do not join the segment it reads. -/
theorem advance_between {word : Word} {marker : Marker} {cs : List Char} {next : Reading}
    (hcs : cs ≠ []) (hround : advance table ⟨word, marker, cs⟩ = .ok next) (before : Word)
    {more : List Char} (hmore : table.Breaks more) :
    advance table ⟨before.append word, marker, cs ++ more⟩ =
      .ok ⟨before.append next.word, next.marker, next.rest ++ more⟩ := by
  cases cs with
  | nil => exact absurd rfl hcs
  | cons c rest =>
    rw [List.cons_append]
    cases hc : Marker.ofChar? c with
    | some boundary =>
      rw [advance_boundary hc] at hround
      cases hround
      rw [advance_boundary hc]
    | none =>
      cases htaken : table.takeSegment (c :: rest) with
      | mk run taken =>
        rw [advance_segment hc htaken] at hround
        obtain ⟨phone, hphone, rfl⟩ := map_eq_ok_iff.mp hround
        have hlonger := takeSegment_append_of_readSegment htaken hphone hmore
        rw [List.cons_append] at hlonger
        rw [advance_segment hc hlonger, hphone]
        simp only [Except.map, Word.append, Word.push, List.append_assoc]

end Reading

/-! ## All rounds -/

/-- A reading that ends is a sequence of rounds: what holds at its end and, if it holds after a
round, held before it, holds from the start. -/
theorem readOn_rounds {motive : Reading → Reading → Prop}
    (hover : ∀ reading, reading.rest = [] → motive reading reading)
    (hround : ∀ reading next last, reading.rest ≠ [] → reading.advance table = .ok next →
      motive next last → motive reading last)
    {reading last : Reading} (hread : table.readOn reading = some (.ok last)) :
    motive reading last := by
  refine readOn.partial_correctness table (fun reading outcome => ∀ last, outcome = .ok last →
    motive reading last) ?_ reading (.ok last) hread last rfl
  rintro approximation ih reading outcome hfound last rfl
  split at hfound
  · next hrest =>
    cases hfound
    exact hover reading (List.isEmpty_iff.mp hrest)
  · next hrest =>
    split at hfound
    · cases hfound
    · next next hnext =>
      exact hround reading next last (by simpa using hrest) hnext (ih _ _ hfound last rfl)

/-- A reading that ends goes on in the same way behind other words, and then reads what else is
written. -/
theorem readOn_between {reading last : Reading} (hread : table.readOn reading = some (.ok last))
    (before : Word) {more : List Char} (hmore : table.Breaks more) :
    table.readOn ⟨before.append reading.word, reading.marker, reading.rest ++ more⟩ =
      table.readOn ⟨before.append last.word, last.marker, more⟩ := by
  refine readOn_rounds (motive := fun reading last =>
    table.readOn ⟨before.append reading.word, reading.marker, reading.rest ++ more⟩ =
      table.readOn ⟨before.append last.word, last.marker, more⟩) ?_ ?_ hread
  · intro reading hrest
    rw [hrest, List.nil_append]
  · intro reading next last hrest hround hnext
    have hcs : reading.rest ++ more ≠ [] := by simp [hrest]
    rw [readOn_of_advance_eq_ok hcs (Reading.advance_between hrest hround before hmore), hnext]

/-- Two transcriptions that can be read give the two words one after the other when they are written
one after the other, if the second starts with no tie bar and no diacritic of the table. -/
theorem readWord_append {first second : String} {u v : Word}
    (hu : table.readWord first = some (.ok u)) (hv : table.readWord second = some (.ok v))
    (hsecond : table.Breaks second.toList) :
    table.readWord (first ++ second) = some (.ok (u.append v)) := by
  obtain ⟨lastU, hreadU, hplainU, rfl⟩ := readWord_eq_ok_iff.mp hu
  obtain ⟨lastV, hreadV, hplainV, rfl⟩ := readWord_eq_ok_iff.mp hv
  have hnil : table.Breaks [] := fun c hc => absurd hc (Option.not_mem_none c)
  have hread := calc table.readOn (.start (first ++ second))
      _ = table.readOn ⟨Word.empty.append .empty, .plain, first.toList ++ second.toList⟩ := by
        rw [Reading.start, String.toList_append]
        rfl
      _ = table.readOn ⟨Word.empty.append lastU.word, .plain, second.toList⟩ := by
        have hfirst := readOn_between hreadU .empty hsecond
        rwa [hplainU] at hfirst
      _ = table.readOn ⟨lastU.word.append .empty, .plain, second.toList ++ []⟩ := by
        rw [List.append_nil, Word.append, Word.append, Word.empty, List.append_nil,
          List.nil_append]
      _ = table.readOn ⟨lastU.word.append lastV.word, .plain, []⟩ := by
        have hrest := readOn_between hreadV lastU.word hnil
        rwa [hplainV] at hrest
      _ = some (.ok ⟨lastU.word.append lastV.word, .plain, []⟩) := readOn_of_rest_eq_nil rfl
  exact readWord_eq_ok_iff.mpr ⟨_, hread, rfl, rfl⟩

/-- The symbol of one base phone starts that of another here. Written behind the first, the second
is still read as itself. -/
theorem readWord_append_affricate :
    ∃ table u v, ofText "SEGMENT\tson\nt\t-\nt_s\t+\n" = .ok table ∧
      table.readWord "t" = some (.ok u) ∧ table.readWord "t_s" = some (.ok v) ∧
      table.readWord ("t" ++ "t_s") = some (.ok (u.append v)) ∧
      (u.append v).phones.map (·.symbol) = ["t", "t_s"] := by
  let stop : Matrix := ⟨[⟨"son", .minus⟩]⟩
  let affricate : Matrix := ⟨[⟨"son", .plus⟩]⟩
  let base : BaseTable := ⟨["son"], .empty, [("t", stop), ("t_s", affricate)]⟩
  have hsource : ofText "SEGMENT\tson\nt\t-\nt_s\t+\n" = .ok (ofBases base) := by
    with_unfolding_all rfl
  have hstop : (ofBases base).readWord "t" = some (.ok ⟨[(.plain, ⟨"t", stop⟩)]⟩) := by
    have hround : (Reading.start "t").advance (ofBases base) =
        .ok ⟨⟨[(.plain, ⟨"t", stop⟩)]⟩, .plain, []⟩ := by
      with_unfolding_all rfl
    have hread := readOn_of_advance_eq_ok (List.cons_ne_nil _ _) hround
    exact readWord_eq_ok_iff.mpr ⟨_, hread.trans (readOn_of_rest_eq_nil rfl), rfl, rfl⟩
  have haffricate :
      (ofBases base).readWord "t_s" = some (.ok ⟨[(.plain, ⟨"t_s", affricate⟩)]⟩) := by
    have hround : (Reading.start "t_s").advance (ofBases base) =
        .ok ⟨⟨[(.plain, ⟨"t_s", affricate⟩)]⟩, .plain, []⟩ := by
      with_unfolding_all rfl
    have hread := readOn_of_advance_eq_ok (List.cons_ne_nil _ _) hround
    exact readWord_eq_ok_iff.mpr ⟨_, hread.trans (readOn_of_rest_eq_nil rfl), rfl, rfl⟩
  have hbreaks : (ofBases base).Breaks "t_s".toList := by
    intro c hc
    obtain rfl : 't' = c := Option.mem_some.mp hc
    decide
  exact ⟨_, _, _, hsource, hstop, haffricate, readWord_append hstop haffricate hbreaks, rfl⟩

end SoundLaw.Table
