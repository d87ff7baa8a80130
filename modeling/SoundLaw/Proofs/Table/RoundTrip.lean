import SoundLaw.Proofs.Table.Registration
import SoundLaw.Table.Transcription
import Mathlib.Data.List.Pairwise

/-!
# Reading back what was written

When the base symbols of a table are not empty, none starts with another, and they are free of
boundary characters, tie bars and diacritics, a transcription can be cut into segments in one way
only. Every registered phone is then read back from its symbol, although that symbol was chosen
among all derivations of its matrix, and every word of registered phones is read back from its
transcription, with its markers. A derived symbol that was not chosen is read as well, as the phone
whose symbol was chosen instead.
-/

namespace SoundLaw

/-- A mark is neither a boundary character nor a tie bar. -/
theorem Diacritic.symbol_ne (kind : Diacritic) :
    Marker.ofChar? kind.symbol = none ∧ kind.symbol ≠ Table.tie := by
  cases kind <;> decide

/-- A character that is no point and no plus writes no marker. -/
theorem Marker.ofChar?_eq_none {c : Char} (hpoint : c ≠ '.') (hplus : c ≠ '+') :
    ofChar? c = none := by
  unfold ofChar?
  split
  · exact absurd rfl hpoint
  · exact absurd rfl hplus
  · rfl

/-- A marker is not written, or with one character that writes it. -/
theorem Marker.symbol_cases (marker : Marker) :
    marker = .plain ∨ ∃ c, marker.symbol.toList = [c] ∧ ofChar? c = some marker := by
  cases marker with
  | plain => exact Or.inl rfl
  | syllable => exact Or.inr ⟨'.', by decide, rfl⟩
  | morpheme => exact Or.inr ⟨'+', by decide, rfl⟩

/-- The characters that write a slot of a word. -/
def Word.slotText (slot : Marker × Phone) : List Char :=
  slot.1.symbol.toList ++ slot.2.symbol.toList

/-- A word is written slot by slot. -/
theorem Word.toList_render (word : Word) :
    word.render.toList = word.slots.flatMap slotText := by
  rw [render, String.toList_join, List.flatMap_map]
  refine List.flatMap_congr fun slot _ => ?_
  rw [String.toList_append, slotText]

namespace Table

/-- Base symbols that cannot be mistaken for one another or for anything else in a
transcription. -/
structure Unambiguous (table : Table) : Prop where
  nonempty : ∀ base ∈ table.bases, base.1 ≠ ""
  /-- No row starts with the symbol of another row, so no symbol has two rows either. -/
  prefixFree : table.bases.Pairwise fun a b =>
    ¬ a.1.toList <+: b.1.toList ∧ ¬ b.1.toList <+: a.1.toList
  plain : ∀ base ∈ table.bases, ∀ c ∈ base.1.toList,
    c ≠ '.' ∧ c ≠ '+' ∧ c ≠ tie ∧ table.isDiacritic c = false

/-- A base symbol that another one starts with is that one. -/
theorem Unambiguous.eq_of_isPrefix {table : Table} (htable : table.Unambiguous)
    {a b : String × Matrix} (ha : a ∈ table.bases) (hb : b ∈ table.bases)
    (hstart : a.1.toList <+: b.1.toList) : a = b := by
  by_contra hne
  have hsymm : Std.Symm fun a b : String × Matrix =>
      ¬ a.1.toList <+: b.1.toList ∧ ¬ b.1.toList <+: a.1.toList := ⟨fun _ _ h => h.symm⟩
  exact (htable.prefixFree.forall ha hb hne).1 hstart

/-- What is found under a symbol is a row of that symbol. -/
theorem exists_mem_bases_of_base? {table : Table} {symbol : String} {matrix : Matrix}
    (h : table.base? symbol = some matrix) : (symbol, matrix) ∈ table.bases := by
  obtain ⟨found, hfind, rfl⟩ := Option.map_eq_some_iff.mp h
  have hsymbol : found.1 = symbol := by simpa using List.find?_some hfind
  subst hsymbol
  exact List.mem_reverse.mp (List.mem_of_find?_eq_some hfind)

/-- Every base phone is found under its symbol. -/
theorem Unambiguous.base?_eq_some {table : Table} (htable : table.Unambiguous)
    {base : String × Matrix} (hbase : base ∈ table.bases) :
    table.base? base.1 = some base.2 := by
  cases hfind : table.base? base.1 with
  | none =>
    have hnone := Option.map_eq_none_iff.mp hfind
    have hno := List.find?_eq_none.mp hnone base (List.mem_reverse.mpr hbase)
    simp at hno
  | some matrix =>
    have hmem := exists_mem_bases_of_base? hfind
    have heq := htable.eq_of_isPrefix hmem hbase (List.prefix_refl _)
    rw [← heq]

/-- Nothing is found under a run that a base symbol goes beyond. -/
theorem Unambiguous.base?_eq_none {table : Table} (htable : table.Unambiguous)
    {base : String × Matrix} (hbase : base ∈ table.bases) {run : String}
    (hstart : run.toList <+: base.1.toList) (hne : run ≠ base.1) :
    table.base? run = none := by
  cases hfind : table.base? run with
  | none => rfl
  | some matrix =>
    have heq := htable.eq_of_isPrefix (exists_mem_bases_of_base? hfind) hbase hstart
    exact absurd (congrArg Prod.fst heq) hne

/-- What may follow a segment without joining it. -/
def Breaks (table : Table) (rest : List Char) : Prop :=
  ∀ c ∈ rest.head?, c ≠ tie ∧ table.isDiacritic c = false

/-- A run grows to the base symbol it starts, and stops there. -/
theorem takeBase_append {table : Table} {symbol run : String} {cs rest : List Char}
    (hsymbol : run.toList ++ cs = symbol.toList) (hfound : (table.base? symbol).isSome)
    (hbefore : ∀ before : String, before.toList <+: symbol.toList → before ≠ symbol →
      table.base? before = none)
    (hrest : ∀ c ∈ rest.head?, c ≠ tie) :
    table.takeBase run (cs ++ rest) = (symbol, rest) := by
  induction cs generalizing run with
  | nil =>
    rw [List.append_nil, String.toList_inj] at hsymbol
    subst hsymbol
    cases rest with
    | nil => rfl
    | cons c rest =>
      have htie : c ≠ tie := hrest c rfl
      rw [List.nil_append, takeBase, if_neg]
      simpa [htie] using Option.isSome_iff_ne_none.mp hfound
  | cons c cs ih =>
    have hnone : table.base? run = none := by
      refine hbefore run ⟨c :: cs, hsymbol⟩ ?_
      rintro rfl
      simp at hsymbol
    rw [List.cons_append, takeBase, if_pos (by simp [hnone])]
    refine ih ?_
    rw [String.toList_push, List.append_assoc]
    exact hsymbol

/-- A base symbol, its marks and what follows them are told apart. -/
theorem Unambiguous.takeSegment_append {table : Table} (htable : table.Unambiguous)
    {base : String × Matrix} (hbase : base ∈ table.bases) {marks rest : List Char}
    (hmarks : ∀ c ∈ marks, c ≠ tie ∧ table.isDiacritic c = true) (hrest : table.Breaks rest) :
    table.takeSegment (base.1.toList ++ (marks ++ rest)) = (base.1, marks, rest) := by
  have hfollow : ∀ c ∈ (marks ++ rest).head?, c ≠ tie := by
    intro c hc
    cases marks with
    | nil => exact (hrest c hc).1
    | cons mark marks =>
      have hmark : mark = c := Option.mem_some.mp hc
      exact (hmarks c (hmark ▸ List.mem_cons_self)).1
  have hrun : table.takeBase "" (base.1.toList ++ (marks ++ rest)) = (base.1, marks ++ rest) := by
    refine takeBase_append (by simp) ?_ ?_ hfollow
    · rw [htable.base?_eq_some hbase]
      rfl
    · intro before hstart hne
      exact htable.base?_eq_none hbase hstart hne
  have hdiacritics : ∀ c ∈ marks, table.isDiacritic c = true := fun c hc => (hmarks c hc).2
  have htake : rest.takeWhile table.isDiacritic = [] := by
    cases rest with
    | nil => rfl
    | cons c rest => exact List.takeWhile_cons_of_neg (by simp [(hrest c rfl).2])
  have hdrop : rest.dropWhile table.isDiacritic = rest := by
    cases rest with
    | nil => rfl
    | cons c rest => exact List.dropWhile_cons_of_neg (by simp [(hrest c rfl).2])
  rw [takeSegment, hrun]
  simp only
  rw [List.takeWhile_append_of_pos hdiacritics, List.dropWhile_append_of_pos hdiacritics, htake,
    hdrop, List.append_nil]

/-- Reading the marks of a stack applies the stack. -/
theorem applyMarks_eq_ok {table : Table} {symbol symbol' : String} {matrix matrix' : Matrix}
    {applied : List Diacritic} {stack : List Articulation}
    (hfound : ∀ a ∈ stack, table.articulation? a.symbol = some a)
    (h : Articulation.stack? table.classes symbol matrix applied stack =
      some (symbol', matrix')) :
    table.applyMarks symbol matrix applied (stack.map (·.symbol)) = .ok (symbol', matrix') := by
  induction stack generalizing symbol matrix applied with
  | nil =>
    cases h
    rfl
  | cons a rest ih =>
    rw [Articulation.stack?] at h
    split at h
    · next hcan =>
      rw [List.map_cons, applyMarks, hfound a List.mem_cons_self, Option.filter_some, if_pos hcan]
      exact ih (fun b hb => hfound b (List.mem_cons_of_mem _ hb)) h
    · cases h

/-- The phone of a base phone with a stack of articulations on it, if they may be stacked so. -/
def stacked? (table : Table) (base : String × Matrix) (stack : List Articulation) : Option Phone :=
  (Articulation.stack? table.classes base.1 base.2 [] stack).map fun derived =>
    (table.get? derived.2).getD ⟨derived.1, derived.2⟩

/-- A base phone with a stack of articulations on it is read from its symbol and the marks. -/
theorem Unambiguous.readSegment_of_stacked {table : Table} (htable : table.Unambiguous)
    {base : String × Matrix} (hbase : base ∈ table.bases) {stack : List Articulation}
    (hfound : ∀ a ∈ stack, table.articulation? a.symbol = some a) {phone : Phone}
    (h : table.stacked? base stack = some phone) :
    table.readSegment base.1 (stack.map (·.symbol)) = .ok phone := by
  obtain ⟨derived, hstack, rfl⟩ := Option.map_eq_some_iff.mp h
  rw [readSegment, htable.base?_eq_some hbase]
  simp only [applyMarks_eq_ok hfound hstack, bind, Except.bind]
  rfl

/-- A base symbol starts with a character that is nothing but a part of it. -/
theorem Unambiguous.exists_cons {table : Table} (htable : table.Unambiguous)
    {base : String × Matrix} (hbase : base ∈ table.bases) :
    ∃ c cs, base.1.toList = c :: cs ∧ Marker.ofChar? c = none ∧ c ≠ tie ∧
      table.isDiacritic c = false := by
  cases hcs : base.1.toList with
  | nil => exact absurd (String.toList_eq_nil_iff.mp hcs) (htable.nonempty base hbase)
  | cons c cs =>
    obtain ⟨hpoint, hplus, htie, hmark⟩ := htable.plain base hbase c (hcs ▸ List.mem_cons_self)
    exact ⟨c, cs, rfl, Marker.ofChar?_eq_none hpoint hplus, htie, hmark⟩

end Table

namespace BaseTable

/-- An articulation of a table is found under its mark. -/
theorem articulation?_eq_some {base : BaseTable} {a : Articulation}
    (ha : a ∈ base.articulations) : (Table.ofBases base).articulation? a.symbol = some a := by
  have hnodup := Articulation.standard_symbols_nodup base.features
  cases hfind : (Table.ofBases base).articulation? a.symbol with
  | none =>
    have hno := List.find?_eq_none.mp hfind a ha
    simp at hno
  | some b =>
    have hsymbol : b.symbol = a.symbol := by simpa using List.find?_some hfind
    have hb : b ∈ base.articulations := List.mem_of_find?_eq_some hfind
    rw [List.inj_on_of_nodup_map hnodup hb ha hsymbol]

/-- The mark of an articulation is the mark of a kind. -/
theorem exists_kind_of_mem_articulations {base : BaseTable} {a : Articulation}
    (ha : a ∈ base.articulations) : ∃ kind : Diacritic, a.symbol = kind.symbol := by
  obtain ⟨kind, -, rfl⟩ := List.mem_map.mp ha
  exact ⟨kind, rfl⟩

/-- A diacritic of a table is the mark of a kind. -/
theorem exists_kind_of_isDiacritic {base : BaseTable} {c : Char}
    (hc : (Table.ofBases base).isDiacritic c = true) : ∃ kind : Diacritic, c = kind.symbol := by
  obtain ⟨a, hfind⟩ := Option.isSome_iff_exists.mp hc
  have hsymbol : a.symbol = c := by simpa using List.find?_some hfind
  obtain ⟨kind, hkind⟩ := exists_kind_of_mem_articulations (List.mem_of_find?_eq_some hfind)
  exact ⟨kind, hsymbol ▸ hkind⟩

/-- A boundary character is neither a tie bar nor a diacritic. -/
theorem boundary_ne {base : BaseTable} {c : Char} (hc : (Marker.ofChar? c).isSome) :
    c ≠ Table.tie ∧ (Table.ofBases base).isDiacritic c = false := by
  refine ⟨?_, ?_⟩
  · rintro rfl
    exact absurd hc (by decide)
  · by_contra hmark
    obtain ⟨kind, rfl⟩ := exists_kind_of_isDiacritic (Bool.not_eq_false _ ▸ hmark)
    rw [kind.symbol_ne.1] at hc
    cases hc

/-- The symbol of a registered phone was derived for a matrix that the phone is found under. -/
theorem WellFormed.exists_derived {base : BaseTable} (hbase : base.WellFormed) {phone : Phone}
    (hphone : phone ∈ (Table.ofBases base).phones) :
    ∃ matrix, (phone.symbol, matrix) ∈ base.derivations ∧
      (Table.ofBases base).get? matrix = some phone := by
  obtain ⟨matrix, hderived, hsame⟩ := hbase.registers.symbol_derived phone hphone
  exact ⟨matrix, hderived, hbase.get?_eq_some hphone (hbase.derivations _ hderived) hsame⟩

/-- A base symbol and the marks stacked on it are read in one round, behind the marker read last. -/
theorem readOn_stack {base : BaseTable} (hplain : (Table.ofBases base).Unambiguous) (word : Word)
    (marker : Marker) {row : String × Matrix} (hrow : row ∈ base.bases) {stack : List Articulation}
    (hmem : ∀ a ∈ stack, a ∈ base.articulations) {phone : Phone}
    (hphone : (Table.ofBases base).stacked? row stack = some phone) {rest : List Char}
    (hrest : (Table.ofBases base).Breaks rest) :
    (Table.ofBases base).readOn ⟨word, marker, row.1.toList ++ (stack.map (·.symbol) ++ rest)⟩ =
      (Table.ofBases base).readOn ⟨word.push marker phone, .plain, rest⟩ := by
  have hfound : ∀ a ∈ stack, (Table.ofBases base).articulation? a.symbol = some a :=
    fun a ha => articulation?_eq_some (hmem a ha)
  have hmarks : ∀ c ∈ stack.map (·.symbol),
      c ≠ Table.tie ∧ (Table.ofBases base).isDiacritic c = true := by
    intro c hc
    obtain ⟨a, ha, rfl⟩ := List.mem_map.mp hc
    obtain ⟨kind, hkind⟩ := exists_kind_of_mem_articulations (hmem a ha)
    refine ⟨hkind ▸ kind.symbol_ne.2, ?_⟩
    rw [Table.isDiacritic, hfound a ha]
    rfl
  have htake := hplain.takeSegment_append hrow hmarks hrest
  have hread := hplain.readSegment_of_stacked hrow hfound hphone
  obtain ⟨c, cs, hsymbol, hmarker, -, -⟩ := hplain.exists_cons hrow
  rw [hsymbol, List.cons_append] at htake ⊢
  refine Table.readOn_of_advance_eq_ok (List.cons_ne_nil _ _) ?_
  simp only [Table.Reading.advance, hmarker, htake, hread]

/-- A derived symbol starts with a character of a base symbol. -/
theorem exists_symbol_cons {base : BaseTable} (hplain : (Table.ofBases base).Unambiguous)
    {symbol : String} {matrix : Matrix} (hderived : (symbol, matrix) ∈ base.derivations) :
    ∃ c cs, symbol.toList = c :: cs ∧ Marker.ofChar? c = none ∧ c ≠ Table.tie ∧
      (Table.ofBases base).isDiacritic c = false := by
  obtain ⟨row, hrow, stack, -, hstack⟩ := (base.mem_derivations_iff _).mp hderived
  have hsymbol := Articulation.stack?_symbol hstack
  obtain ⟨c, cs, hcs, hplainChar⟩ := hplain.exists_cons hrow
  rw [hcs, List.cons_append] at hsymbol
  exact ⟨c, _, hsymbol, hplainChar⟩

/-- What is written for a word never joins the segment before it. -/
theorem WellFormed.breaks_flatMap {base : BaseTable} (hbase : base.WellFormed)
    (hplain : (Table.ofBases base).Unambiguous) {slots : List (Marker × Phone)}
    (hslots : ∀ slot ∈ slots, slot.2 ∈ (Table.ofBases base).phones) :
    (Table.ofBases base).Breaks (slots.flatMap Word.slotText) := by
  cases slots with
  | nil => exact fun c hc => absurd hc (Option.not_mem_none c)
  | cons slot slots =>
    obtain ⟨marker, phone⟩ := slot
    rw [List.flatMap_cons, Word.slotText]
    rcases marker.symbol_cases with rfl | ⟨boundary, hboundary, hread⟩
    · obtain ⟨matrix, hderived, -⟩ := hbase.exists_derived (hslots _ List.mem_cons_self)
      obtain ⟨first, cs, hsymbol, -, htie, hmark⟩ := exists_symbol_cons hplain hderived
      intro c hc
      dsimp only at hsymbol hc
      rw [hsymbol] at hc
      cases Option.mem_some.mp hc
      exact ⟨htie, hmark⟩
    · intro c hc
      dsimp only at hc
      rw [hboundary] at hc
      cases Option.mem_some.mp hc
      refine boundary_ne ?_
      rw [hread]
      rfl

/-- A derived symbol is read in one round, behind the marker read last. -/
theorem readOn_symbol {base : BaseTable} (hplain : (Table.ofBases base).Unambiguous) (word : Word)
    (marker : Marker) {symbol : String} {matrix : Matrix}
    (hderived : (symbol, matrix) ∈ base.derivations) {phone : Phone}
    (hget : (Table.ofBases base).get? matrix = some phone) {rest : List Char}
    (hrest : (Table.ofBases base).Breaks rest) :
    (Table.ofBases base).readOn ⟨word, marker, symbol.toList ++ rest⟩ =
      (Table.ofBases base).readOn ⟨word.push marker phone, .plain, rest⟩ := by
  obtain ⟨row, hrow, stack, hsublist, hstack⟩ := (base.mem_derivations_iff _).mp hderived
  have hphone : (Table.ofBases base).stacked? row stack = some phone :=
    Option.map_eq_some_iff.mpr ⟨(symbol, matrix), hstack, by rw [hget, Option.getD_some]⟩
  rw [Articulation.stack?_symbol hstack, List.append_assoc]
  exact readOn_stack hplain word marker hrow (fun _ ha => hsublist.subset ha) hphone hrest

/-- The transcription of a list of slots is read back slot by slot. -/
theorem WellFormed.readOn_flatMap {base : BaseTable} (hbase : base.WellFormed)
    (hplain : (Table.ofBases base).Unambiguous) (word : Word)
    {slots : List (Marker × Phone)}
    (hslots : ∀ slot ∈ slots, slot.2 ∈ (Table.ofBases base).phones) :
    (Table.ofBases base).readOn ⟨word, .plain, slots.flatMap Word.slotText⟩ =
      some (.ok ⟨⟨word.slots ++ slots⟩, .plain, []⟩) := by
  induction slots generalizing word with
  | nil =>
    rw [List.flatMap_nil, List.append_nil]
    exact Table.readOn_of_rest_eq_nil rfl
  | cons slot slots ih =>
    obtain ⟨marker, phone⟩ := slot
    have hphone := hslots _ List.mem_cons_self
    have htail : ∀ slot ∈ slots, slot.2 ∈ (Table.ofBases base).phones :=
      fun slot hslot => hslots slot (List.mem_cons_of_mem _ hslot)
    obtain ⟨matrix, hderived, hget⟩ := hbase.exists_derived hphone
    have hread := readOn_symbol hplain word marker hderived hget (hbase.breaks_flatMap hplain htail)
    rw [ih _ htail, Word.push, List.append_assoc, List.singleton_append] at hread
    rw [List.flatMap_cons, Word.slotText, List.append_assoc]
    -- A written marker is read before the symbol; it is remembered until the phone is read.
    rcases marker.symbol_cases with rfl | ⟨boundary, hboundary, hmarker⟩
    · exact hread
    · dsimp only
      rw [hboundary, List.singleton_append, ← hread]
      refine Table.readOn_of_advance_eq_ok (List.cons_ne_nil _ _) ?_
      simp only [Table.Reading.advance, hmarker]

end BaseTable

/-- A table that was read is the table of base phones that were read. -/
theorem Table.exists_load_of_ofText {source : String} {table : Table}
    (h : ofText source = .ok table) :
    ∃ base, BaseTable.load source = .ok base ∧ table = ofBases base := by
  unfold ofText at h
  cases hload : BaseTable.load source with
  | error fault =>
    rw [hload] at h
    cases h
  | ok base =>
    rw [hload] at h
    cases h
    exact ⟨base, rfl, rfl⟩

/-- Every word of registered phones is read back from its transcription. -/
theorem Table.readWord_render {source : String} {table : Table}
    (hsource : ofText source = .ok table) (hplain : table.Unambiguous) (word : Word)
    (hword : ∀ phone ∈ word.phones, phone ∈ table.phones) :
    table.readWord word.render = some (.ok word) := by
  obtain ⟨base, hload, rfl⟩ := exists_load_of_ofText hsource
  have hslots : ∀ slot ∈ word.slots, slot.2 ∈ (ofBases base).phones :=
    fun slot hslot => hword slot.2 (List.mem_map_of_mem hslot)
  rw [readWord, Reading.start, word.toList_render,
    (BaseTable.load_wellFormed hload).readOn_flatMap hplain Word.empty hslots]
  rfl

/-- With a voiced and a voiceless base phone, of which the second is written as the devoiced first,
the words of the table are read back. -/
theorem Table.readWord_render_devoiced :
    ∃ table, ofText "SEGMENT\tvoice\nb\t+\nts\t-\n" = .ok table ∧ table.Unambiguous ∧
      ∃ word : Word, word.render = ".b\u0325+b" ∧ (∀ phone ∈ word.phones, phone ∈ table.phones) ∧
        table.readWord word.render = some (.ok word) := by
  let base : BaseTable := ⟨["voice"], .empty, [("b", ⟨[⟨"voice", .plus⟩]⟩), ("ts", ⟨[⟨"voice", .minus⟩]⟩)]⟩
  let voiced : Phone := ⟨"b", ⟨[⟨"voice", .plus⟩]⟩⟩
  let devoiced : Phone := ⟨"b\u0325", ⟨[⟨"voice", .minus⟩]⟩⟩
  have hsource : ofText "SEGMENT\tvoice\nb\t+\nts\t-\n" = .ok (ofBases base) := by
    with_unfolding_all rfl
  have hplain : (ofBases base).Unambiguous := by
    refine ⟨by decide, by decide, ?_⟩
    intro row hrow c hc
    rcases List.mem_cons.mp hrow with rfl | hrow
    · rw [List.mem_singleton.mp (show c ∈ ['b'] from hc)]
      decide
    · rw [List.mem_singleton.mp hrow] at hc
      rcases List.mem_cons.mp (show c ∈ ['t', 's'] from hc) with rfl | hc
      · decide
      · rw [List.mem_singleton.mp hc]
        decide
  have hphones : (ofBases base).phones = [voiced, devoiced] := by cbv
  have hword : ∀ phone ∈ [devoiced, voiced], phone ∈ (ofBases base).phones := by
    intro phone hphone
    rw [hphones]
    simpa [or_comm] using hphone
  exact ⟨_, hsource, hplain, ⟨[(.syllable, devoiced), (.morpheme, voiced)]⟩, by decide, hword,
    readWord_render hsource hplain _ hword⟩

/-- Whatever a table derives is read back: a derived symbol, canonical or not, is read as the
registered phone of the matrix that was derived with it. -/
theorem Table.readPhone_of_mem_derivations {source : String} {base : BaseTable}
    (hload : BaseTable.load source = .ok base) (hplain : (ofBases base).Unambiguous)
    {symbol : String} {matrix : Matrix} (hderived : (symbol, matrix) ∈ base.derivations) :
    ∃ phone ∈ (ofBases base).phones, (phone.matrix == matrix) = true ∧
      (ofBases base).readPhone symbol = some (.ok phone) := by
  have hbase := BaseTable.load_wellFormed hload
  obtain ⟨phone, hphone, hsame⟩ := hbase.registers.complete _ hderived
  have hget := hbase.get?_eq_some hphone (hbase.derivations _ hderived) hsame
  have hend : (ofBases base).Breaks [] := fun c hc => absurd hc (Option.not_mem_none c)
  have hread := BaseTable.readOn_symbol hplain .empty .plain hderived hget hend
  have hword : (ofBases base).readWord symbol = some (.ok (Word.empty.push .plain phone)) := by
    rw [List.append_nil] at hread
    rw [readWord, Reading.start, hread, readOn_of_rest_eq_nil rfl]
    rfl
  refine ⟨phone, hphone, hsame, ?_⟩
  rw [readPhone, hword]
  rfl

/-- With a voiced and a voiceless base phone the devoiced first is read as the second, whose symbol
is another one. -/
theorem Table.readPhone_of_mem_derivations_devoiced :
    ∃ base, BaseTable.load "SEGMENT\tvoice\nb\t+\np\t-\n" = .ok base ∧
      (ofBases base).Unambiguous ∧ ("b\u0325", ⟨[⟨"voice", .minus⟩]⟩) ∈ base.derivations ∧
      (ofBases base).phones.map (·.symbol) = ["b", "p"] ∧
      ∃ phone ∈ (ofBases base).phones, (phone.matrix == ⟨[⟨"voice", .minus⟩]⟩) = true ∧
        (ofBases base).readPhone "b\u0325" = some (.ok phone) := by
  let voiced : Matrix := ⟨[⟨"voice", .plus⟩]⟩
  let voiceless : Matrix := ⟨[⟨"voice", .minus⟩]⟩
  let base : BaseTable := ⟨["voice"], .empty, [("b", voiced), ("p", voiceless)]⟩
  have hload : BaseTable.load "SEGMENT\tvoice\nb\t+\np\t-\n" = .ok base := by
    with_unfolding_all rfl
  have hplain : (ofBases base).Unambiguous := by
    refine ⟨by decide, by decide, ?_⟩
    intro row hrow c hc
    rcases List.mem_cons.mp hrow with rfl | hrow
    · obtain rfl : c = 'b' := by simpa using hc
      decide
    · rw [List.mem_singleton.mp hrow] at hc
      obtain rfl : c = 'p' := by simpa using hc
      decide
  have hderivations : base.derivations =
      [("b", voiced), ("p", voiceless), ("b\u0325", voiceless)] := by cbv
  have hderived : ("b\u0325", voiceless) ∈ base.derivations := by simp [hderivations]
  exact ⟨base, hload, hplain, hderived, by cbv,
    readPhone_of_mem_derivations hload hplain hderived⟩

end SoundLaw
