import SoundLaw.Proofs.Table.Reading
import Mathlib.Data.List.Induction

/-!
# The grammar of transcriptions

A transcription is a sequence of segments. A segment is any number of boundary characters, the
symbol of a base phone, and the marks of articulations that may be stacked on that phone in this
order. The reader accepts exactly this: whatever it reads it has cut into segments, and what is a
sequence of segments it reads segment by segment, as a table whose symbols cannot be mistaken leaves
only one way to cut.
-/

namespace SoundLaw

/-- The marker that boundary characters write: the last one counts. -/
def Marker.ofBoundaries (boundaries : List Char) : Marker :=
  (boundaries.getLast?.bind ofChar?).getD .plain

/-- A further boundary character decides. -/
theorem Marker.ofBoundaries_append {c : Char} {marker : Marker} (hc : ofChar? c = some marker)
    (boundaries : List Char) : ofBoundaries (boundaries ++ [c]) = marker := by
  simp [ofBoundaries, hc]

/-- No character writes the plain marker. -/
theorem Marker.ofChar?_ne_plain (c : Char) : ofChar? c ≠ some .plain := by
  unfold ofChar?
  split <;> simp

/-- Boundary characters that write the plain marker are none at all. -/
theorem Marker.eq_nil_of_ofBoundaries {boundaries : List Char}
    (hboundaries : ∀ c ∈ boundaries, (ofChar? c).isSome)
    (hplain : ofBoundaries boundaries = .plain) : boundaries = [] := by
  cases boundaries using List.reverseRecOn with
  | nil => rfl
  | append_singleton before c =>
    obtain ⟨marker, hmarker⟩ := Option.isSome_iff_exists.mp (hboundaries c (by simp))
    rw [ofBoundaries_append hmarker] at hplain
    exact absurd (hplain ▸ hmarker) (ofChar?_ne_plain c)

/-- A segment of a transcription: boundary characters, a base phone and the articulations whose
marks are written on it. -/
structure Spelling where
  boundaries : List Char
  base : String × Matrix
  stack : List Articulation

namespace Spelling

/-- The characters of a segment. -/
def text (s : Spelling) : List Char :=
  s.boundaries ++ (s.base.1.toList ++ s.stack.map (·.symbol))

/-- A segment that belongs to the grammar of a table. -/
structure Admitted (table : Table) (s : Spelling) : Prop where
  boundaries : ∀ c ∈ s.boundaries, (Marker.ofChar? c).isSome
  base : s.base ∈ table.bases
  marks : ∀ a ∈ s.stack, a ∈ table.articulations
  /-- Each articulation may follow those before it. -/
  applies : (Articulation.stack? table.classes s.base.1 s.base.2 [] s.stack).isSome

/-- A segment that belongs to the grammar and what it stands for in a word. -/
structure StandsFor (table : Table) (s : Spelling) (slot : Marker × Phone) : Prop where
  admitted : s.Admitted table
  marker : slot.1 = .ofBoundaries s.boundaries
  phone : table.stacked? s.base s.stack = some slot.2

/-- Every segment of the grammar stands for something. -/
theorem Admitted.exists_slot {table : Table} {s : Spelling} (hs : s.Admitted table) :
    ∃ slot, s.StandsFor table slot := by
  obtain ⟨derived, hderived⟩ := Option.isSome_iff_exists.mp hs.applies
  let phone : Phone := (table.get? derived.2).getD ⟨derived.1, derived.2⟩
  refine ⟨(.ofBoundaries s.boundaries, phone), hs, rfl, ?_⟩
  rw [Table.stacked?, hderived, Option.map_some]

/-- Every sequence of segments of the grammar stands for a word. -/
theorem exists_slots {table : Table} {segments : List Spelling}
    (hsegments : ∀ s ∈ segments, s.Admitted table) :
    ∃ slots, List.Forall₂ (StandsFor table) segments slots := by
  induction segments with
  | nil => exact ⟨[], .nil⟩
  | cons s rest ih =>
    rw [List.forall_mem_cons] at hsegments
    obtain ⟨slot, hslot⟩ := hsegments.1.exists_slot
    obtain ⟨slots, hslots⟩ := ih hsegments.2
    exact ⟨slot :: slots, .cons hslot hslots⟩

/-- Segments that stand for something belong to the grammar. -/
theorem admitted_of_forall₂ {table : Table} {segments : List Spelling}
    {slots : List (Marker × Phone)} (h : List.Forall₂ (StandsFor table) segments slots) :
    ∀ s ∈ segments, s.Admitted table := by
  induction h with
  | nil => exact fun _ hs => absurd hs List.not_mem_nil
  | cons hs _ ih => exact List.forall_mem_cons.mpr ⟨hs.admitted, ih⟩

/-- Segments stand for their markers and their phones, one each. -/
theorem map_of_forall₂ {table : Table} {segments : List Spelling}
    {slots : List (Marker × Phone)} (h : List.Forall₂ (StandsFor table) segments slots) :
    slots.map (·.1) = segments.map (.ofBoundaries ·.boundaries) ∧
      (slots.map (·.2)).map some = segments.map fun s => table.stacked? s.base s.stack := by
  induction h with
  | nil => exact ⟨rfl, rfl⟩
  | cons hs _ ih =>
    refine ⟨?_, ?_⟩
    · rw [List.map_cons, List.map_cons, hs.marker, ih.1]
    · rw [List.map_cons, List.map_cons, List.map_cons, hs.phone, ih.2]

end Spelling

namespace Table

/-- Characters that are a sequence of segments, and what these stand for. -/
def Spells (table : Table) (text : List Char) (slots : List (Marker × Phone)) : Prop :=
  ∃ segments, text = segments.flatMap Spelling.text ∧
    List.Forall₂ (Spelling.StandsFor table) segments slots

/-- A segment may be written before a sequence of segments. -/
theorem Spells.cons {table : Table} {s : Spelling} {slot : Marker × Phone}
    (hs : s.StandsFor table slot) {text : List Char} {slots : List (Marker × Phone)}
    (hrest : table.Spells text slots) : table.Spells (s.text ++ text) (slot :: slots) := by
  obtain ⟨segments, rfl, hslots⟩ := hrest
  exact ⟨s :: segments, List.flatMap_cons.symm, .cons hs hslots⟩

/-- Marks that can be applied are those of a stack of articulations of the table. -/
theorem exists_stack_of_applyMarks {table : Table} {symbol symbol' : String}
    {matrix matrix' : Matrix} {applied : List Diacritic} {marks : List Char}
    (h : table.applyMarks symbol matrix applied marks = .ok (symbol', matrix')) :
    ∃ stack : List Articulation, marks = stack.map (·.symbol) ∧
      (∀ a ∈ stack, a ∈ table.articulations) ∧
      Articulation.stack? table.classes symbol matrix applied stack = some (symbol', matrix') := by
  induction marks generalizing symbol matrix applied with
  | nil =>
    cases h
    exact ⟨[], rfl, fun _ ha => absurd ha List.not_mem_nil, rfl⟩
  | cons mark rest ih =>
    rw [applyMarks] at h
    split at h
    · next a ha =>
      obtain ⟨hfind, hcan⟩ := Option.filter_eq_some_iff.mp ha
      have hmark : a.symbol = mark := by simpa using List.find?_some hfind
      obtain ⟨stack, rfl, hstack, hresult⟩ := ih h
      refine ⟨a :: stack, ?_, ?_, ?_⟩
      · rw [List.map_cons, hmark]
      · exact List.forall_mem_cons.mpr ⟨List.mem_of_find?_eq_some hfind, hstack⟩
      · rw [Articulation.stack?, if_pos hcan, hmark]
        exact hresult
    · cases h

/-- What is read from a run and its marks is what they stand for behind boundary characters. -/
theorem exists_standsFor_of_readSegment {table : Table} {run : String} {marks : List Char}
    {phone : Phone} (h : table.readSegment run marks = .ok phone) {boundaries : List Char}
    (hboundaries : ∀ c ∈ boundaries, (Marker.ofChar? c).isSome) :
    ∃ s : Spelling, s.text = boundaries ++ (run.toList ++ marks) ∧
      s.StandsFor table (.ofBoundaries boundaries, phone) := by
  unfold readSegment at h
  split at h
  · cases h
  · next matrix hbase =>
    obtain ⟨⟨symbol, derived⟩, hmarks, hphone⟩ := bind_eq_ok_iff.mp h
    obtain ⟨stack, rfl, hstack, hresult⟩ := exists_stack_of_applyMarks hmarks
    refine ⟨⟨boundaries, (run, matrix), stack⟩, rfl, ?_, rfl, ?_⟩
    · exact ⟨hboundaries, exists_mem_bases_of_base? hbase, hstack, hresult ▸ rfl⟩
    · cases hphone
      simp only [stacked?, hresult, Option.map_some]

/-- A run and what is left behind it are the characters that were there. -/
theorem takeBase_append_eq (table : Table) (run : String) (cs : List Char) :
    (table.takeBase run cs).1.toList ++ (table.takeBase run cs).2 = run.toList ++ cs := by
  induction cs generalizing run with
  | nil => rfl
  | cons c rest ih =>
    rw [takeBase]
    split
    · rw [ih, String.toList_push, List.append_assoc]
      rfl
    · rfl

/-- What a round of reading does when it succeeds: it remembers a boundary, or it takes a run and
its marks and adds the phone that they are read as. -/
theorem Reading.advance_cases {table : Table} {word : Word} {marker : Marker} {c : Char}
    {rest : List Char} {next : Reading}
    (h : Reading.advance table ⟨word, marker, c :: rest⟩ = .ok next) :
    (∃ boundary, Marker.ofChar? c = some boundary ∧ next = ⟨word, boundary, rest⟩) ∨
    ∃ run marks after phone, c :: rest = run.toList ++ (marks ++ after) ∧
      table.readSegment run marks = .ok phone ∧ next = ⟨word.push marker phone, .plain, after⟩ := by
  cases hboundary : Marker.ofChar? c with
  | some boundary =>
    simp only [advance, hboundary, Except.ok.injEq] at h
    exact Or.inl ⟨boundary, rfl, h.symm⟩
  | none =>
    simp only [advance, hboundary, takeSegment] at h
    split at h
    · cases h
    · next phone hphone =>
      cases h
      refine Or.inr ⟨_, _, _, phone, ?_, hphone, rfl⟩
      rw [List.takeWhile_append_dropWhile, takeBase_append_eq, String.toList_empty, List.nil_append]

/-- Whatever a reading that ends without a boundary has read is a sequence of segments, the first of
which starts with the boundary characters that were pending. -/
theorem exists_spells_of_readOn {table : Table} {reading last : Reading}
    (hread : table.readOn reading = some (.ok last)) (hlast : last.marker = .plain)
    {pending : List Char} (hpending : ∀ c ∈ pending, (Marker.ofChar? c).isSome)
    (hmarker : reading.marker = .ofBoundaries pending) :
    ∃ slots, table.Spells (pending ++ reading.rest) slots ∧
      last.word.slots = reading.word.slots ++ slots := by
  -- By induction over the rounds; what is pending grows until a segment takes it.
  refine readOn.partial_correctness table (fun reading outcome => ∀ last, outcome = .ok last →
    last.marker = .plain → ∀ pending : List Char, (∀ c ∈ pending, (Marker.ofChar? c).isSome) →
    reading.marker = .ofBoundaries pending → ∃ slots, table.Spells (pending ++ reading.rest) slots ∧
      last.word.slots = reading.word.slots ++ slots) ?_ reading (.ok last) hread last rfl hlast
    pending hpending hmarker
  rintro approximation ih ⟨word, marker, cs⟩ outcome hround last rfl hlast pending hpending hmarker
  cases cs with
  | nil =>
    simp only [List.isEmpty_nil, if_true, Option.some.injEq, Except.ok.injEq] at hround
    subst hround
    obtain rfl := Marker.eq_nil_of_ofBoundaries hpending (hmarker.symm.trans hlast)
    exact ⟨[], ⟨[], rfl, .nil⟩, (List.append_nil _).symm⟩
  | cons c rest =>
    simp only [List.isEmpty_cons, Bool.false_eq_true, if_false] at hround
    split at hround
    · cases hround
    · next next hnext =>
      rcases Reading.advance_cases hnext with
        ⟨boundary, hboundary, rfl⟩ | ⟨run, marks, after, phone, hsplit, hphone, rfl⟩
      · have hmore : ∀ d ∈ pending ++ [c], (Marker.ofChar? d).isSome := by
          refine List.forall_mem_append.mpr ⟨hpending, List.forall_mem_singleton.mpr ?_⟩
          rw [hboundary]
          rfl
        obtain ⟨slots, hslots, hword⟩ := ih _ _ hround last rfl hlast (pending ++ [c]) hmore
          (Marker.ofBoundaries_append hboundary pending).symm
        rw [List.append_assoc] at hslots
        exact ⟨slots, hslots, hword⟩
      · obtain ⟨s, htext, hs⟩ := exists_standsFor_of_readSegment hphone hpending
        obtain ⟨slots, hslots, hword⟩ := ih _ _ hround last rfl hlast [] (by simp) rfl
        refine ⟨(.ofBoundaries pending, phone) :: slots, ?_, ?_⟩
        · have hcons := hslots.cons hs
          rw [htext] at hcons
          simpa [hsplit] using hcons
        · rw [hword, ← hmarker, Word.push, List.append_assoc, List.singleton_append]

/-- Boundary characters are read one after another, and the last one is remembered. -/
theorem readOn_boundaries (table : Table) (word : Word) {boundaries : List Char}
    (hboundaries : ∀ c ∈ boundaries, (Marker.ofChar? c).isSome) (rest : List Char) :
    table.readOn ⟨word, .plain, boundaries ++ rest⟩ =
      table.readOn ⟨word, .ofBoundaries boundaries, rest⟩ := by
  induction boundaries using List.reverseRecOn generalizing rest with
  | nil => rfl
  | append_singleton before c ih =>
    rw [List.forall_mem_append, List.forall_mem_singleton] at hboundaries
    obtain ⟨marker, hmarker⟩ := Option.isSome_iff_exists.mp hboundaries.2
    rw [List.append_assoc, ih hboundaries.1, Marker.ofBoundaries_append hmarker]
    refine readOn_of_advance_eq_ok (List.cons_ne_nil _ _) ?_
    simp only [List.singleton_append, Reading.advance, hmarker]

end Table

namespace BaseTable

/-- What is written for segments never joins the segment before them. -/
theorem breaks_segments {base : BaseTable} (hplain : (Table.ofBases base).Unambiguous)
    {segments : List Spelling} (hsegments : ∀ s ∈ segments, s.Admitted (Table.ofBases base)) :
    (Table.ofBases base).Breaks (segments.flatMap Spelling.text) := by
  cases segments with
  | nil => exact fun c hc => absurd hc (Option.not_mem_none c)
  | cons s rest =>
    obtain ⟨hboundaries, hbase, -, -⟩ := hsegments s List.mem_cons_self
    obtain ⟨boundaries, row, stack⟩ := s
    intro c hc
    cases boundaries with
    | cons boundary boundaries =>
      cases Option.mem_some.mp hc
      exact boundary_ne (hboundaries c List.mem_cons_self)
    | nil =>
      obtain ⟨first, cs, hsymbol, -, hfirst⟩ := hplain.exists_cons hbase
      dsimp only at hsymbol
      rw [List.flatMap_cons, Spelling.text, hsymbol] at hc
      cases Option.mem_some.mp hc
      exact hfirst

/-- A sequence of segments is read segment by segment. -/
theorem readOn_segments {base : BaseTable} (hplain : (Table.ofBases base).Unambiguous)
    {segments : List Spelling} {slots : List (Marker × Phone)}
    (hsegments : List.Forall₂ (Spelling.StandsFor (Table.ofBases base)) segments slots)
    (word : Word) :
    (Table.ofBases base).readOn ⟨word, .plain, segments.flatMap Spelling.text⟩ =
      some (.ok ⟨⟨word.slots ++ slots⟩, .plain, []⟩) := by
  induction hsegments generalizing word with
  | nil =>
    rw [List.flatMap_nil, List.append_nil]
    exact Table.readOn_of_rest_eq_nil rfl
  | @cons s slot segments slots hs hsegments ih =>
    obtain ⟨marker, phone⟩ := slot
    obtain ⟨⟨hboundaries, hbase, hmarks, -⟩, rfl, hphone⟩ := hs
    have hrest := breaks_segments hplain (Spelling.admitted_of_forall₂ hsegments)
    rw [List.flatMap_cons, Spelling.text, List.append_assoc, List.append_assoc,
      Table.readOn_boundaries _ _ hboundaries, readOn_stack hplain _ _ hbase hmarks hphone hrest,
      ih, Word.push, List.append_assoc, List.singleton_append]

/-- A word is read from a transcription when this is a sequence of segments that stand for the
phones of the word behind their markers. -/
theorem readWord_eq_ok_iff_spells {base : BaseTable} (hplain : (Table.ofBases base).Unambiguous)
    {transcription : String} {word : Word} :
    (Table.ofBases base).readWord transcription = some (.ok word) ↔
      (Table.ofBases base).Spells transcription.toList word.slots := by
  rw [Table.readWord_eq_ok_iff]
  constructor
  · rintro ⟨last, hlast, hmarker, rfl⟩
    have hpending : ∀ c ∈ ([] : List Char), (Marker.ofChar? c).isSome := by simp
    obtain ⟨slots, hslots, hword⟩ := Table.exists_spells_of_readOn hlast hmarker hpending rfl
    exact hword ▸ hslots
  · rintro ⟨segments, htext, hslots⟩
    refine ⟨⟨word, .plain, []⟩, ?_, rfl, rfl⟩
    rw [Table.Reading.start, htext]
    exact readOn_segments hplain hslots Word.empty

/-- No segment ends in a boundary character. -/
theorem ofChar?_getLast_text {base : BaseTable} (hplain : (Table.ofBases base).Unambiguous)
    {s : Spelling} (hs : s.Admitted (Table.ofBases base)) {before : List Char} {c : Char}
    (hlast : (before ++ s.text).getLast? = some c) : Marker.ofChar? c = none := by
  obtain ⟨first, cs, hsymbol, -, -⟩ := hplain.exists_cons hs.base
  have hne : s.base.1.toList ++ s.stack.map (·.symbol) ≠ [] := by simp [hsymbol]
  rw [Spelling.text, ← List.append_assoc, List.getLast?_append_of_ne_nil _ hne] at hlast
  rcases List.mem_append.mp (List.mem_of_getLast? hlast) with hc | hc
  · obtain ⟨hpoint, hplus, -, -⟩ := hplain.plain s.base hs.base c hc
    exact Marker.ofChar?_eq_none hpoint hplus
  · obtain ⟨a, ha, rfl⟩ := List.mem_map.mp hc
    obtain ⟨kind, hkind⟩ := exists_kind_of_mem_articulations (hs.marks a ha)
    rw [hkind]
    exact kind.symbol_ne.1

/-- A sequence of segments does not end in a boundary character. -/
theorem ofChar?_getLast_of_spells {base : BaseTable} (hplain : (Table.ofBases base).Unambiguous)
    {text : List Char} {slots : List (Marker × Phone)}
    (htext : (Table.ofBases base).Spells text slots) {c : Char} (hlast : text.getLast? = some c) :
    Marker.ofChar? c = none := by
  obtain ⟨segments, rfl, hslots⟩ := htext
  cases segments using List.reverseRecOn with
  | nil => cases hlast
  | append_singleton before s =>
    have hs := Spelling.admitted_of_forall₂ hslots s (by simp)
    rw [List.flatMap_append, List.flatMap_singleton] at hlast
    exact ofChar?_getLast_text hplain hs hlast

end BaseTable

/-- A table whose symbols cannot be mistaken reads every transcription to its end. It accepts the
sequences of segments and nothing else. However a transcription is cut into segments, the word has
the phone and the marker of each; and a transcription that ends in a boundary character is
rejected. -/
theorem Table.readWord_accepts_grammar {source : String} {table : Table}
    (hsource : ofText source = .ok table) (hplain : table.Unambiguous) (transcription : String) :
    (table.readOn (.start transcription)).isSome ∧
    ((∃ word, table.readWord transcription = some (.ok word)) ↔
      ∃ segments : List Spelling, (∀ s ∈ segments, s.Admitted table) ∧
        transcription.toList = segments.flatMap Spelling.text) ∧
    (∀ (word : Word) (segments : List Spelling), table.readWord transcription = some (.ok word) →
      (∀ s ∈ segments, s.Admitted table) → transcription.toList = segments.flatMap Spelling.text →
        word.markers = segments.map (.ofBoundaries ·.boundaries) ∧
        word.phones.map some = segments.map fun s => table.stacked? s.base s.stack) ∧
    ∀ c, transcription.toList.getLast? = some c → (Marker.ofChar? c).isSome →
      ∃ fault, table.readWord transcription = some (.error fault) := by
  obtain ⟨base, -, rfl⟩ := exists_load_of_ofText hsource
  have hiff (word : Word) : (ofBases base).readWord transcription = some (.ok word) ↔
      (ofBases base).Spells transcription.toList word.slots :=
    BaseTable.readWord_eq_ok_iff_spells hplain
  have hends : ((ofBases base).readOn (.start transcription)).isSome :=
    isSome_readOn ((base?_eq_none_iff _ "").mpr hplain.nonempty) _
  refine ⟨hends, ⟨?_, ?_⟩, ?_, ?_⟩
  · rintro ⟨word, hread⟩
    obtain ⟨segments, htext, hslots⟩ := (hiff word).mp hread
    exact ⟨segments, Spelling.admitted_of_forall₂ hslots, htext⟩
  · rintro ⟨segments, hsegments, htext⟩
    obtain ⟨slots, hslots⟩ := Spelling.exists_slots hsegments
    exact ⟨⟨slots⟩, (hiff ⟨slots⟩).mpr ⟨segments, htext, hslots⟩⟩
  · intro word segments hread hsegments htext
    obtain ⟨slots, hslots⟩ := Spelling.exists_slots hsegments
    have hword := (hiff ⟨slots⟩).mpr ⟨segments, htext, hslots⟩
    cases hread.symm.trans hword
    exact Spelling.map_of_forall₂ hslots
  · intro c hlast hc
    obtain ⟨outcome, hread⟩ := Option.isSome_iff_exists.mp (isSome_readWord hends)
    cases outcome with
    | error fault => exact ⟨fault, hread⟩
    | ok word =>
      rw [BaseTable.ofChar?_getLast_of_spells hplain ((hiff word).mp hread) hlast] at hc
      cases hc

/-- With a voiced and a voiceless base phone, the devoiced first is accepted behind two boundaries
and read as the second, behind the later boundary; a boundary at the end is rejected. -/
theorem Table.readWord_accepts_grammar_devoiced :
    ∃ table, ofText "SEGMENT\tvoice\nb\t+\np\t-\n" = .ok table ∧ table.Unambiguous ∧
      (∃ word, table.readWord ".+b\u0325.p" = some (.ok word) ∧
        word.markers = [.morpheme, .syllable] ∧ word.phones.map (·.symbol) = ["p", "p"]) ∧
      ∃ fault, table.readWord "b." = some (.error fault) := by
  let voiced : Matrix := ⟨[⟨"voice", .plus⟩]⟩
  let voiceless : Matrix := ⟨[⟨"voice", .minus⟩]⟩
  let base : BaseTable := ⟨["voice"], .empty, [("b", voiced), ("p", voiceless)]⟩
  let segments : List Spelling :=
    [⟨['.', '+'], ("b", voiced), [.ofKind .devoicing]⟩, ⟨['.'], ("p", voiceless), []⟩]
  have hsource : ofText "SEGMENT\tvoice\nb\t+\np\t-\n" = .ok (ofBases base) := by
    with_unfolding_all rfl
  have hplain : (ofBases base).Unambiguous := by
    refine ⟨by decide, by decide, ?_⟩
    intro row hrow c hc
    rcases List.mem_cons.mp hrow with rfl | hrow
    · obtain rfl : c = 'b' := by simpa using hc
      decide
    · rw [List.mem_singleton.mp hrow] at hc
      obtain rfl : c = 'p' := by simpa using hc
      decide
  have hmark : Articulation.ofKind .devoicing ∈ base.articulations :=
    List.mem_map_of_mem (List.mem_filter.mpr ⟨by decide, by decide⟩)
  have hsegments : ∀ s ∈ segments, s.Admitted (ofBases base) := by
    refine List.forall_mem_cons.mpr ⟨?_, List.forall_mem_singleton.mpr ?_⟩
    · refine ⟨List.all_eq_true.mp rfl, List.mem_cons_self, ?_, by decide⟩
      exact List.forall_mem_singleton.mpr hmark
    · refine ⟨List.all_eq_true.mp rfl, List.mem_cons_of_mem _ List.mem_cons_self, ?_, by decide⟩
      exact fun _ ha => absurd ha List.not_mem_nil
  have htext : ".+b\u0325.p".toList = segments.flatMap Spelling.text := by decide
  obtain ⟨-, haccepts, hword, -⟩ := readWord_accepts_grammar hsource hplain ".+b\u0325.p"
  obtain ⟨-, -, -, hrejects⟩ := readWord_accepts_grammar hsource hplain "b."
  obtain ⟨word, hread⟩ := haccepts.mpr ⟨segments, hsegments, htext⟩
  obtain ⟨hmarkers, hphones⟩ := hword word segments hread hsegments htext
  have hsymbols : (word.phones.map (·.symbol)).map some = ["p", "p"].map some :=
    calc (word.phones.map (·.symbol)).map some
        = (word.phones.map some).map (Option.map (·.symbol)) := by simp
      _ = (segments.map fun s => (ofBases base).stacked? s.base s.stack).map
          (Option.map (·.symbol)) := by rw [hphones]
      _ = ["p", "p"].map some := by decide +kernel
  exact ⟨_, hsource, hplain,
    ⟨word, hread, hmarkers, List.map_injective_iff.mpr (fun _ _ => Option.some.inj) hsymbols⟩,
    hrejects '.' (by decide) (by decide)⟩

end SoundLaw
