import SoundLaw.Proofs.Matrix.Sameness
import SoundLaw.Proofs.Outcome
import SoundLaw.Table.Loading

/-!
# What a table derives

A row of a table sets every feature of the header once, so its matrix is well-formed. A derivation
is a base phone with a stack of articulations on it: a sublist of the articulations of the table,
each of which may follow the ones before it. The work-list of unfinished derivations finds every
such stack and nothing else, and the symbol of a variant is the symbol of its base followed by the
marks of the stack.
-/

namespace SoundLaw

/-- The variant that a whole stack of articulations makes, if each may follow those before it. -/
def Articulation.stack? (classes : MajorClasses) :
    String → Matrix → List Diacritic → List Articulation → Option (String × Matrix)
  | symbol, matrix, _, [] => some (symbol, matrix)
  | symbol, matrix, applied, a :: rest =>
    if a.canApply matrix applied then
      stack? classes (symbol.push a.symbol) (a.apply classes matrix) (applied ++ [a.kind]) rest
    else none

namespace Articulation

/-- The marks of a stack are written behind the base. -/
theorem stack?_symbol {classes : MajorClasses} {symbol symbol' : String} {matrix matrix' : Matrix}
    {applied : List Diacritic} {stack : List Articulation}
    (h : stack? classes symbol matrix applied stack = some (symbol', matrix')) :
    symbol'.toList = symbol.toList ++ stack.map (·.symbol) := by
  induction stack generalizing symbol matrix applied with
  | nil =>
    cases h
    simp
  | cons a rest ih =>
    rw [stack?] at h
    split at h
    · rw [ih h, String.toList_push]
      simp
    · cases h

/-- What every articulation of a stack keeps, the stack keeps. -/
theorem stack?_keeps {motive : Matrix → Prop} {classes : MajorClasses} {symbol symbol' : String}
    {matrix matrix' : Matrix} {applied : List Diacritic} {stack : List Articulation}
    (hkeeps : ∀ a ∈ stack, ∀ m, motive m → motive (a.apply classes m)) (hmatrix : motive matrix)
    (h : stack? classes symbol matrix applied stack = some (symbol', matrix')) :
    motive matrix' := by
  induction stack generalizing symbol matrix applied with
  | nil =>
    cases h
    exact hmatrix
  | cons a rest ih =>
    rw [stack?] at h
    split at h
    · exact ih (fun b hb => hkeeps b (List.mem_cons_of_mem _ hb))
        (hkeeps a List.mem_cons_self matrix hmatrix) h
    · cases h

/-- The change that a diacritic makes has no variable. -/
theorem hasVariables_delta (kind : Diacritic) : (ofKind kind).delta.hasVariables = false := by
  cases kind <;> rfl

/-- The standard articulations of a table have different marks. -/
theorem standard_symbols_nodup (features : List String) :
    ((standard features).map (·.symbol)).Nodup := by
  have hsublist : ((standard features).map (·.symbol)).Sublist (Diacritic.all.map (·.symbol)) := by
    rw [standard, List.map_map]
    exact List.filter_sublist.map _
  have hall : (Diacritic.all.map (·.symbol)).Nodup := by decide
  exact hall.sublist hsublist

end Articulation

namespace Derivation

/-- Whether a variant comes of an unfinished derivation: some of its pending articulations are
stacked on it. -/
def Leads (classes : MajorClasses) (d : Derivation) (variant : String × Matrix) : Prop :=
  ∃ stack, stack ≠ [] ∧ stack.Sublist d.pending ∧
    Articulation.stack? classes d.symbol d.matrix d.applied stack = some variant

/-- Nothing comes of a derivation without pending articulations. -/
theorem not_leads_of_pending_nil (classes : MajorClasses) (symbol : String) (matrix : Matrix)
    (applied : List Diacritic) (variant : String × Matrix) :
    ¬ Leads classes ⟨symbol, matrix, applied, []⟩ variant := by
  rintro ⟨stack, hne, hsublist, -⟩
  exact hne (List.sublist_nil.mp hsublist)

/-- An articulation that may not be applied leads nowhere. -/
theorem leads_of_not_canApply {classes : MajorClasses} {symbol : String} {matrix : Matrix}
    {applied : List Diacritic} {a : Articulation} {later : List Articulation}
    (hcan : ¬ a.canApply matrix applied) (variant : String × Matrix) :
    Leads classes ⟨symbol, matrix, applied, a :: later⟩ variant ↔
      Leads classes ⟨symbol, matrix, applied, later⟩ variant := by
  constructor
  · rintro ⟨stack, hne, hsublist, hstack⟩
    cases hsublist with
    | cons _ hlater => exact ⟨stack, hne, hlater, hstack⟩
    | cons_cons _ hlater =>
      rw [Articulation.stack?, if_neg hcan] at hstack
      cases hstack
  · rintro ⟨stack, hne, hsublist, hstack⟩
    exact ⟨stack, hne, hsublist.cons a, hstack⟩

/-- An articulation that may be applied leads to the extended variant, to what comes of it, and
to what comes of leaving the articulation out. -/
theorem leads_of_canApply {classes : MajorClasses} {symbol : String} {matrix : Matrix}
    {applied : List Diacritic} {a : Articulation} {later : List Articulation}
    (hcan : a.canApply matrix applied) (variant : String × Matrix) :
    Leads classes ⟨symbol, matrix, applied, a :: later⟩ variant ↔
      variant = (symbol.push a.symbol, a.apply classes matrix) ∨
      Leads classes ⟨symbol.push a.symbol, a.apply classes matrix, applied ++ [a.kind], later⟩
        variant ∨
      Leads classes ⟨symbol, matrix, applied, later⟩ variant := by
  constructor
  · rintro ⟨stack, hne, hsublist, hstack⟩
    cases hsublist with
    | cons _ hlater => exact Or.inr (Or.inr ⟨stack, hne, hlater, hstack⟩)
    | @cons_cons rest _ _ hlater =>
      rw [Articulation.stack?, if_pos hcan] at hstack
      cases rest with
      | nil =>
        cases hstack
        exact Or.inl rfl
      | cons b rest => exact Or.inr (Or.inl ⟨b :: rest, List.cons_ne_nil _ _, hlater, hstack⟩)
  · rintro (rfl | ⟨stack, -, hsublist, hstack⟩ | ⟨stack, hne, hsublist, hstack⟩)
    · refine ⟨[a], List.cons_ne_nil _ _, (List.nil_sublist later).cons_cons a, ?_⟩
      rw [Articulation.stack?, if_pos hcan, Articulation.stack?]
    · refine ⟨a :: stack, List.cons_ne_nil _ _, hsublist.cons_cons a, ?_⟩
      rw [Articulation.stack?, if_pos hcan]
      exact hstack
    · exact ⟨stack, hne, hsublist.cons a, hstack⟩

/-- The work-list finds exactly what comes of its derivations. -/
theorem mem_listVariants_iff (classes : MajorClasses) (work : List Derivation)
    (variant : String × Matrix) :
    variant ∈ listVariants classes work ↔ ∃ d ∈ work, d.Leads classes variant := by
  induction work using listVariants.induct classes with
  | case1 => simp [listVariants]
  | case2 symbol matrix applied rest ih =>
    rw [listVariants, ih]
    simp [not_leads_of_pending_nil]
  | case3 symbol matrix applied a later rest current hcan derived ih =>
    rw [listVariants, List.exists_mem_cons_iff, leads_of_canApply hcan, or_assoc, or_assoc]
    simp only [hcan, if_true, List.mem_cons]
    rw [ih, List.exists_mem_cons_iff, List.exists_mem_cons_iff]
    rfl
  | case4 symbol matrix applied a later rest current hcan ih =>
    rw [listVariants, List.exists_mem_cons_iff, leads_of_not_canApply hcan]
    simp only [hcan, if_false, Bool.false_eq_true]
    rw [ih, List.exists_mem_cons_iff]

end Derivation

namespace BaseTable

/-- The quality in a cell is no variable. -/
theorem isVariable_of_cellQuality? {cell : String} {quality : Quality}
    (h : cellQuality? cell = some quality) : quality.isVariable = false := by
  unfold cellQuality? at h
  split at h
  · simpa using (Option.filter_eq_some_iff.mp h).2
  · cases h

/-- Reading cells sets the features that head them, in order, to the qualities they write. -/
theorem readCells_eq_ok {classes : MajorClasses} {line : Nat} {matrix matrix' : Matrix}
    {row : List (String × String)} (h : readCells classes line matrix row = .ok matrix') :
    ∃ changes : List Feature, changes.map (·.name) = row.map (·.1) ∧
      (∀ change ∈ changes, change.quality.isVariable = false) ∧
      matrix' = matrix.transform classes ⟨changes⟩ := by
  induction row generalizing matrix with
  | nil =>
    cases h
    exact ⟨[], rfl, fun _ hmem => absurd hmem List.not_mem_nil, rfl⟩
  | cons first rest ih =>
    rw [readCells] at h
    split at h
    · next quality hquality =>
      obtain ⟨changes, hnames, hliteral, rfl⟩ := ih h
      refine ⟨⟨first.1, quality⟩ :: changes, ?_, ?_, rfl⟩
      · rw [List.map_cons, List.map_cons, hnames]
      · exact List.forall_mem_cons.mpr ⟨isVariable_of_cellQuality? hquality, hliteral⟩
    · cases h

/-- A matrix as a row of a table writes it: every feature of the header is set once, in order, to a
quality that is no variable. -/
def WritesRow (table : BaseTable) (m : Matrix) : Prop :=
  ∃ changes : List Feature, changes.map (·.name) = table.features ∧
    (∀ change ∈ changes, change.quality.isVariable = false) ∧
    m = Matrix.empty.transform table.classes ⟨changes⟩

/-- Reading a row adds a base phone whose matrix the row writes. -/
theorem readRow_eq_ok {table table' : BaseTable} {line : Nat} {row : String}
    (h : table.readRow line row = .ok table') :
    ∃ segment matrix, table.WritesRow matrix ∧
      table' = { table with bases := table.bases ++ [(segment, matrix)] } := by
  unfold readRow at h
  dsimp only at h
  split at h
  · cases h
  · next hlength =>
    split at h
    · next hcells =>
      rw [hcells] at hlength
      simp at hlength
    · next segment qualities hcells =>
      obtain ⟨matrix, hread, heq⟩ := bind_eq_ok_iff.mp h
      obtain ⟨changes, hnames, hliteral, hmatrix⟩ := readCells_eq_ok hread
      refine ⟨segment, matrix, ⟨changes, ?_, hliteral, hmatrix⟩, ?_⟩
      · have hqualities : table.features.length ≤ qualities.length := by
          rw [hcells, List.length_cons] at hlength
          omega
        rw [hnames, List.map_fst_zip hqualities]
      · cases heq
        rfl

/-- What holds of a table that was read: its header gives the classes, and its rows write the
matrices. -/
structure Loaded (table : BaseTable) : Prop where
  classes : table.classes = classesOf none .empty table.features
  rows : ∀ base ∈ table.bases, table.WritesRow base.2

/-- A table without its rows is read from a header. -/
theorem readHeader_eq_ok {line : Nat} {header : String} {table : BaseTable}
    (h : readHeader line header = .ok table) : table.Loaded := by
  unfold readHeader at h
  split at h
  · cases h
  · split at h
    · cases h
      exact ⟨rfl, fun _ hbase => absurd hbase List.not_mem_nil⟩
    · cases h

/-- Reading one more row keeps the account of what was read. -/
theorem Loaded.readRow {table table' : BaseTable} (htable : table.Loaded) {line : Nat}
    {row : String} (h : table.readRow line row = .ok table') : table'.Loaded := by
  obtain ⟨segment, matrix, hmatrix, rfl⟩ := readRow_eq_ok h
  exact ⟨htable.classes,
    List.forall_mem_append.mpr ⟨htable.rows, List.forall_mem_singleton.mpr hmatrix⟩⟩

/-- Reading rows one after another keeps the account of what was read. -/
theorem Loaded.readRows {table table' : BaseTable} (htable : table.Loaded)
    {rows : List (Nat × String)}
    (h : rows.foldlM (fun table (line, row) => table.readRow line row) table = .ok table') :
    table'.Loaded := by
  induction rows generalizing table with
  | nil =>
    cases h
    exact htable
  | cons first rest ih =>
    obtain ⟨next, hrow, hrest⟩ := bind_eq_ok_iff.mp h
    exact ih (htable.readRow hrow) hrest

/-- A table that was read is what its header and its rows write. -/
theorem load_loaded {source : String} {table : BaseTable} (h : load source = .ok table) :
    table.Loaded := by
  unfold load at h
  split at h
  · cases h
  · obtain ⟨start, hheader, hrest⟩ := bind_eq_ok_iff.mp h
    exact (readHeader_eq_ok hheader).readRows hrest

/-- The matrices of all rows are well-formed. -/
def WellFormed (table : BaseTable) : Prop :=
  ∀ base ∈ table.bases, base.2.WellFormed

/-- Every matrix of a table that was read is well-formed. -/
theorem load_wellFormed {source : String} {table : BaseTable} (h : load source = .ok table) :
    table.WellFormed := by
  intro base hbase
  obtain ⟨changes, -, -, hmatrix⟩ := (load_loaded h).rows base hbase
  rw [hmatrix]
  exact Matrix.WellFormed.empty.transform table.classes ⟨changes⟩

/-- The derivations of a table are its base phones with stacks of articulations on them. -/
theorem mem_derivations_iff (table : BaseTable) (derived : String × Matrix) :
    derived ∈ table.derivations ↔ ∃ base ∈ table.bases, ∃ stack,
      stack.Sublist table.articulations ∧
        Articulation.stack? table.classes base.1 base.2 [] stack = some derived := by
  rw [derivations, List.mem_append, List.mem_flatMap]
  simp only [Articulation.expand, Derivation.mem_listVariants_iff, List.mem_singleton,
    exists_eq_left]
  constructor
  · rintro (hbase | ⟨base, hbase, stack, -, hsublist, hstack⟩)
    · exact ⟨derived, hbase, [], List.nil_sublist _, rfl⟩
    · exact ⟨base, hbase, stack, hsublist, hstack⟩
  · rintro ⟨base, hbase, stack, hsublist, hstack⟩
    cases stack with
    | nil =>
      cases hstack
      exact Or.inl hbase
    | cons a rest =>
      exact Or.inr ⟨base, hbase, a :: rest, List.cons_ne_nil _ _, hsublist, hstack⟩

/-- The matrices of all derivations of a table that was read are well-formed. -/
theorem WellFormed.derivations {table : BaseTable} (htable : table.WellFormed) :
    ∀ derived ∈ table.derivations, derived.2.WellFormed := by
  intro derived hderived
  obtain ⟨base, hbase, stack, -, hstack⟩ := (table.mem_derivations_iff derived).mp hderived
  exact Articulation.stack?_keeps (fun a _ _ hm => hm.transform table.classes a.delta)
    (htable base hbase) hstack

end BaseTable

end SoundLaw
