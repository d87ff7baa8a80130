import SoundLaw.Proofs.Table.RoundTrip

/-!
# Rounds of reading

A round of reading takes at least one character, with one exception. When a base phone has no
characters and the next character is no boundary, no tie bar and no diacritic, the round adds that
base phone to the word and leaves the characters as they were. The next round then does the same,
and the reading never ends.

So a table reads every transcription to its end exactly when all its rows have a symbol. A reading
that does end has taken a character for every phone, whatever the table.
-/

namespace SoundLaw.Table

/-- What is left behind a run is the end of what was there. -/
theorem takeBase_suffix (table : Table) (run : String) (cs : List Char) :
    (table.takeBase run cs).2 <:+ cs := by
  induction cs generalizing run with
  | nil => exact List.suffix_refl []
  | cons c rest ih =>
    rw [takeBase]
    split
    · exact (ih (run.push c)).trans (List.suffix_cons c rest)
    · exact List.suffix_refl (c :: rest)

/-- A run that spells a base phone ends before a character that is no tie bar. -/
theorem takeBase_of_isSome {table : Table} {run : String} (hrun : (table.base? run).isSome)
    {c : Char} (hc : c ≠ tie) (rest : List Char) :
    table.takeBase run (c :: rest) = (run, c :: rest) := by
  rw [takeBase, if_neg]
  simpa [hc] using Option.isSome_iff_ne_none.mp hrun

/-- What is left behind a segment is the end of what is left behind its run. -/
theorem takeSegment_suffix (table : Table) (cs : List Char) :
    (table.takeSegment cs).2.2 <:+ (table.takeBase "" cs).2 :=
  List.dropWhile_suffix _

/-- A symbol names no base phone when it is the symbol of no row. -/
theorem base?_eq_none_iff (table : Table) (symbol : String) :
    table.base? symbol = none ↔ ∀ base ∈ table.bases, base.1 ≠ symbol := by
  simp [base?]

/-- A character at which a base phone without characters is read over and over. -/
structure Stalls (table : Table) (c : Char) : Prop where
  noBoundary : Marker.ofChar? c = none
  noTie : c ≠ tie
  noDiacritic : table.isDiacritic c = false
  emptySymbol : (table.base? "").isSome

/-- At a character where the reading stalls, the segment is empty. -/
theorem Stalls.takeSegment {table : Table} {c : Char} (hc : table.Stalls c) (rest : List Char) :
    table.takeSegment (c :: rest) = ("", [], c :: rest) := by
  simp [Table.takeSegment, takeBase_of_isSome hc.emptySymbol hc.noTie, hc.noDiacritic]

/-- Where the reading stalls, a round adds a phone and leaves the characters as they were. -/
theorem Stalls.advance {table : Table} {c : Char} (hc : table.Stalls c) (word : Word)
    (marker : Marker) (rest : List Char) :
    ∃ phone, Reading.advance table ⟨word, marker, c :: rest⟩ =
      .ok ⟨word.push marker phone, .plain, c :: rest⟩ := by
  obtain ⟨base, hbase⟩ := Option.isSome_iff_exists.mp hc.emptySymbol
  have hread : table.readSegment "" [] = .ok ((table.get? base).getD ⟨"", base⟩) := by
    rw [readSegment, hbase]
    rfl
  refine ⟨(table.get? base).getD ⟨"", base⟩, ?_⟩
  simp only [Reading.advance, hc.noBoundary, hc.takeSegment, hread]

/-- A reading that stalls has no outcome. -/
theorem Stalls.readOn {table : Table} {c : Char} (hc : table.Stalls c) (word : Word)
    (marker : Marker) (rest : List Char) :
    table.readOn ⟨word, marker, c :: rest⟩ = none := by
  -- No approximation of the loop has an outcome there: its next round is at the same character.
  have hnone (reading : Reading) (outcome : Except Fault Reading)
      (houtcome : table.readOn reading = some outcome) : reading.rest.head? ≠ some c := by
    refine readOn.partial_correctness table (fun reading _ => reading.rest.head? ≠ some c) ?_
      reading outcome houtcome
    rintro approximation ih ⟨word, marker, cs⟩ outcome hround hhead
    obtain ⟨rest, rfl⟩ : ∃ rest, cs = c :: rest := by
      cases cs with
      | nil => cases hhead
      | cons first rest => exact ⟨rest, by rw [Option.some.inj hhead]⟩
    obtain ⟨phone, hphone⟩ := hc.advance word marker rest
    rw [hphone] at hround
    exact ih _ outcome hround rfl
  cases houtcome : table.readOn ⟨word, marker, c :: rest⟩ with
  | none => rfl
  | some outcome => exact absurd rfl (hnone _ outcome houtcome)

/-- A segment takes its first character, unless the reading stalls there. -/
theorem takeSegment_cons_suffix {table : Table} {c : Char} (hmarker : Marker.ofChar? c = none)
    (hc : ¬ table.Stalls c) (rest : List Char) :
    (table.takeSegment (c :: rest)).2.2 <:+ rest := by
  by_cases hrun : c = tie ∨ table.base? "" = none
  · -- The character is the first one of the run.
    have htaken : table.takeBase "" (c :: rest) = table.takeBase ("".push c) rest := by
      rw [takeBase, if_pos]
      simpa using hrun
    have hsegment := table.takeSegment_suffix (c :: rest)
    rw [htaken] at hsegment
    exact hsegment.trans (takeBase_suffix table _ rest)
  · -- The run is empty, and the character is a mark on the base phone without characters.
    obtain ⟨htie, hnone⟩ := not_or.mp hrun
    have hfound : (table.base? "").isSome := Option.isSome_iff_ne_none.mpr hnone
    have hmark : table.isDiacritic c = true := by
      by_contra hmark
      exact hc ⟨hmarker, htie, Bool.eq_false_iff.mpr hmark, hfound⟩
    rw [takeSegment, takeBase_of_isSome hfound htie]
    dsimp only
    rw [List.dropWhile_cons_of_pos hmark]
    exact List.dropWhile_suffix _

/-- A round that succeeds takes at least one character, unless the reading stalls there. -/
theorem Reading.advance_shorter {table : Table} {reading next : Reading}
    (hrest : reading.rest ≠ []) (hstall : ∀ c ∈ reading.rest.head?, ¬ table.Stalls c)
    (hround : reading.advance table = .ok next) :
    next.rest.length < reading.rest.length ∧ next.word.length ≤ reading.word.length + 1 := by
  obtain ⟨word, marker, cs⟩ := reading
  cases cs with
  | nil => exact absurd rfl hrest
  | cons c rest =>
    cases hmarker : Marker.ofChar? c with
    | some boundary =>
      simp only [advance, hmarker, Except.ok.injEq] at hround
      subst hround
      exact ⟨Nat.lt_succ_self rest.length, Nat.le_succ word.length⟩
    | none =>
      have hsuffix := takeSegment_cons_suffix hmarker (hstall c rfl) rest
      simp only [advance, hmarker] at hround
      split at hround
      · cases hround
      · cases hround
        refine ⟨Nat.lt_succ_of_le hsuffix.length_le, ?_⟩
        simp [Word.push, Word.length]

/-- What one round does to a reading: it was over, it stalls, it fails, or it goes on with fewer
characters and at most one more phone. -/
theorem readOn_cases (table : Table) (reading : Reading) :
    (reading.rest = [] ∧ table.readOn reading = some (.ok reading)) ∨
    (∃ c, table.Stalls c ∧ table.readOn reading = none) ∨
    (∃ fault, table.readOn reading = some (.error fault)) ∨
    ∃ next : Reading, next.rest.length < reading.rest.length ∧
      next.word.length ≤ reading.word.length + 1 ∧ table.readOn reading = table.readOn next := by
  by_cases hrest : reading.rest = []
  · exact Or.inl ⟨hrest, readOn_of_rest_eq_nil hrest⟩
  right
  by_cases hstall : ∃ c ∈ reading.rest.head?, table.Stalls c
  · obtain ⟨c, hhead, hc⟩ := hstall
    obtain ⟨word, marker, cs⟩ := reading
    obtain ⟨rest, rfl⟩ := List.head?_eq_some_iff.mp hhead
    exact Or.inl ⟨c, hc, hc.readOn word marker rest⟩
  right
  cases hround : reading.advance table with
  | error fault => exact Or.inl ⟨fault, readOn_of_advance_eq_error hrest hround⟩
  | ok next =>
    have hstall : ∀ c ∈ reading.rest.head?, ¬ table.Stalls c :=
      fun c hhead hc => hstall ⟨c, hhead, hc⟩
    obtain ⟨hshorter, hword⟩ := reading.advance_shorter hrest hstall hround
    exact Or.inr ⟨next, hshorter, hword, readOn_of_advance_eq_ok hrest hround⟩

/-- Without a base phone that has no characters every reading has an outcome. -/
theorem isSome_readOn {table : Table} (hsymbols : table.base? "" = none) (reading : Reading) :
    (table.readOn reading).isSome := by
  induction hlength : reading.rest.length using Nat.strongRecOn generalizing reading with
  | ind length ih =>
    rcases table.readOn_cases reading with
      ⟨-, hover⟩ | ⟨c, hc, -⟩ | ⟨fault, hfault⟩ | ⟨next, hshorter, -, hnext⟩
    · simp [hover]
    · simpa [hsymbols] using hc.emptySymbol
    · simp [hfault]
    · rw [hnext]
      exact ih _ (hlength ▸ hshorter) next rfl

/-- A reading that ends has taken a character for every phone it has added. -/
theorem length_le_of_readOn {table : Table} {reading last : Reading}
    (hread : table.readOn reading = some (.ok last)) :
    last.word.length ≤ reading.word.length + reading.rest.length := by
  induction hlength : reading.rest.length using Nat.strongRecOn generalizing reading with
  | ind length ih =>
    rcases table.readOn_cases reading with
      ⟨-, hover⟩ | ⟨c, -, hnone⟩ | ⟨fault, hfault⟩ | ⟨next, hshorter, hword, hnext⟩
    · rw [hover] at hread
      cases hread
      exact Nat.le_add_right _ _
    · rw [hnone] at hread
      cases hread
    · rw [hfault] at hread
      cases hread
    · have hlast := ih _ (hlength ▸ hshorter) (hnext ▸ hread) rfl
      omega

/-- The letter a is read as a segment by every table that was read: it is no boundary, no tie bar
and no diacritic. -/
theorem stalls_letter {source : String} {table : Table} (hsource : ofText source = .ok table)
    (hsymbol : table.base? "" ≠ none) : table.Stalls 'a' := by
  obtain ⟨base, -, rfl⟩ := exists_load_of_ofText hsource
  refine ⟨by decide, by decide, ?_, Option.isSome_iff_ne_none.mpr hsymbol⟩
  by_contra hmark
  obtain ⟨kind, hkind⟩ := BaseTable.exists_kind_of_isDiacritic (Bool.of_not_eq_false hmark)
  cases kind <;> exact absurd hkind (by decide)

/-- A word is read when a reading ends with it and no boundary is left without a phone. -/
theorem readWord_eq_ok_iff {table : Table} {transcription : String} {word : Word} :
    table.readWord transcription = some (.ok word) ↔
      ∃ last, table.readOn (.start transcription) = some (.ok last) ∧ last.marker = .plain ∧
        last.word = word := by
  rw [readWord, Option.map_eq_some_iff]
  constructor
  · rintro ⟨outcome, hlast, houtcome⟩
    obtain ⟨last, rfl, hword⟩ := bind_eq_ok_iff.mp houtcome
    unfold Reading.conclude at hword
    split at hword
    · next hmarker => exact ⟨last, hlast, hmarker, Except.ok.inj hword⟩
    · cases hword
  · rintro ⟨last, hlast, hmarker, rfl⟩
    exact ⟨.ok last, hlast, if_pos hmarker⟩

/-- A transcription has an outcome when its reading ends. -/
theorem isSome_readWord {table : Table} {transcription : String}
    (hends : (table.readOn (.start transcription)).isSome) :
    (table.readWord transcription).isSome := by
  rwa [readWord, Option.isSome_map]

/-- A word that was read has at most as many phones as its transcription has characters. -/
theorem length_le_of_readWord {table : Table} {transcription : String} {word : Word}
    (hread : table.readWord transcription = some (.ok word)) :
    word.length ≤ transcription.length := by
  obtain ⟨last, hlast, -, rfl⟩ := readWord_eq_ok_iff.mp hread
  have hlength := length_le_of_readOn hlast
  simpa [Reading.start, Word.empty, Word.length, String.length_toList] using hlength

/-- The rounds of a table take a character each, and its readings end, exactly when all its rows
have a symbol; and whenever a word is read, it has at most as many phones as its transcription has
characters. -/
theorem readings_end_iff {source : String} {table : Table} (hsource : ofText source = .ok table) :
    ((∀ base ∈ table.bases, base.1 ≠ "") ↔
      ∀ reading next : Reading, reading.rest ≠ [] → reading.advance table = .ok next →
        next.rest.length < reading.rest.length) ∧
    ((∀ base ∈ table.bases, base.1 ≠ "") ↔
      ∀ transcription, (table.readOn (.start transcription)).isSome) ∧
    ∀ transcription word, table.readWord transcription = some (.ok word) →
      word.length ≤ transcription.length := by
  rw [← base?_eq_none_iff]
  refine ⟨⟨?_, ?_⟩, ⟨?_, ?_⟩, fun _ _ hread => length_le_of_readWord hread⟩
  · intro hsymbols reading next hrest hround
    refine (reading.advance_shorter hrest (fun c _ hc => ?_) hround).1
    simpa [hsymbols] using hc.emptySymbol
  · intro hrounds
    by_contra hsymbol
    obtain ⟨phone, hphone⟩ := (stalls_letter hsource hsymbol).advance .empty .plain []
    exact absurd (hrounds _ _ (List.cons_ne_nil _ _) hphone) (Nat.lt_irrefl _)
  · exact fun hsymbols transcription => isSome_readOn hsymbols (.start transcription)
  · intro hends
    by_contra hsymbol
    have hnone : table.readOn (.start "a") = none :=
      (stalls_letter hsource hsymbol).readOn .empty .plain []
    have hsome := hends "a"
    rw [hnone] at hsome
    cases hsome

/-- A table of one voiced base phone reads every transcription to its end. -/
theorem readings_end_voiced :
    ∃ table, ofText "SEGMENT\tvoice\nb\t+\n" = .ok table ∧
      (∀ transcription, (table.readOn (.start transcription)).isSome) ∧
      ∀ transcription word, table.readWord transcription = some (.ok word) →
        word.length ≤ transcription.length := by
  let base : BaseTable := ⟨["voice"], .empty, [("b", ⟨[⟨"voice", .plus⟩]⟩)]⟩
  have hsource : ofText "SEGMENT\tvoice\nb\t+\n" = .ok (ofBases base) := by
    with_unfolding_all rfl
  obtain ⟨-, hends, hlength⟩ := readings_end_iff hsource
  exact ⟨_, hsource, hends.mp (by decide), hlength⟩

/-- A row whose first cell is empty is accepted. The first round of reading the letter a then takes
no character, and the reading never ends. -/
theorem readOn_eq_none_of_empty_cell :
    ∃ table, ofText "SEGMENT\tvoice\n\t+\n" = .ok table ∧
      (∃ next, (Reading.start "a").advance table = .ok next ∧
        next.rest = (Reading.start "a").rest) ∧
      table.readOn (.start "a") = none := by
  let base : BaseTable := ⟨["voice"], .empty, [("", ⟨[⟨"voice", .plus⟩]⟩)]⟩
  have hsource : ofText "SEGMENT\tvoice\n\t+\n" = .ok (ofBases base) := by
    with_unfolding_all rfl
  have hstall : (ofBases base).Stalls 'a' := stalls_letter hsource (by decide)
  obtain ⟨phone, hphone⟩ := hstall.advance .empty .plain []
  exact ⟨_, hsource, ⟨_, hphone, rfl⟩, hstall.readOn .empty .plain []⟩

end SoundLaw.Table
