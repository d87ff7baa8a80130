import SoundLaw.Proofs.Matrix.ClosedForm
import SoundLaw.Proofs.Table.Propagation

/-!
# Rows that are kept as written

A row sets the features of the header one after another, and setting one feature may change others
of its class. In a header with distinct names a major feature stands before all its dependents, so
what it does to them is written over by their own cells. A dependent that becomes present changes
features that have been set already, but nothing that a consistent row says: its major feature is
present anyway, and no dependent of a present major feature is left unset.
-/

namespace SoundLaw

namespace Matrix

/-- Changes that do not undo one another: each feature is set once, a major feature before its
dependents, classes are set as a whole and to consistent qualities. -/
structure Consistent (classes : MajorClasses) (changes : List Feature) : Prop where
  distinct : (changes.map (·.name)).Nodup
  literal : ∀ change ∈ changes, change.quality.isVariable = false
  ordered : changes.Pairwise fun earlier later => earlier.name ∉ classes.dependents later.name
  /-- Classes consist of features that are set. -/
  complete : ∀ major, ∀ dependent ∈ classes.dependents major,
    major ∈ changes.map (·.name) ∧ dependent ∈ changes.map (·.name)
  /-- A present major feature leaves no dependent unset. -/
  filled : ∀ major ∈ changes, ∀ dependent ∈ changes,
    dependent.name ∈ classes.dependents major.name → major.quality = .plus →
      dependent.quality ≠ .unset
  /-- A dependent is present only where its major feature is. -/
  propagated : ∀ major ∈ changes, ∀ dependent ∈ changes,
    dependent.name ∈ classes.dependents major.name → dependent.quality = .plus →
      major.quality = .plus

namespace Consistent

variable {classes : MajorClasses} {changes : List Feature}

/-- A change leaves the quality alone that was set before it. -/
theorem effect_on_earlier (h : Consistent classes changes) (hclasses : classes.Separated)
    {before after : List Feature} {earlier later : Feature}
    (hchanges : changes = before ++ earlier :: after) (hlater : later ∈ after) :
    (later.effect classes earlier.name).on earlier.quality = earlier.quality := by
  subst hchanges
  have hearlier : earlier ∈ before ++ earlier :: after := by simp
  have hmem : later ∈ before ++ earlier :: after := by simp [hlater]
  have hne : earlier.name ≠ later.name := by
    have hdistinct := (List.pairwise_append.mp (List.pairwise_map.mp h.distinct)).2.1
    exact (List.pairwise_cons.mp hdistinct).1 later hlater
  have hordered : earlier.name ∉ classes.dependents later.name := by
    have hordered := (List.pairwise_append.mp h.ordered).2.1
    exact (List.pairwise_cons.mp hordered).1 later hlater
  rcases Feature.effect_cases hclasses (h.literal later hmem) hne with
    heffect | ⟨heffect, hplus, major, hdependent, hsibling⟩ | ⟨-, -, hdependent⟩ |
      ⟨heffect, hplus, hdependent⟩
  · rw [heffect]
    rfl
  · -- Another dependent of the same class becomes present.
    rcases hsibling with rfl | hsibling
    · exact absurd hdependent hordered
    · obtain ⟨opening, hopening, rfl⟩ := List.mem_map.mp (h.complete major _ hdependent).1
      have hpresent := h.propagated opening hopening later hmem hsibling hplus
      have hset := h.filled opening hopening earlier hearlier hdependent hpresent
      rw [heffect, Effect.on, if_neg hset]
  · exact absurd hdependent hordered
  · -- A dependent becomes present whose major feature was set before.
    rw [heffect, h.propagated earlier hearlier later hmem hdependent hplus]
    rfl

/-- Every feature that is set keeps its quality. -/
theorem get_of_mem (h : Consistent classes changes) (hclasses : classes.Separated)
    {change : Feature} (hchange : change ∈ changes) :
    (empty.transform classes ⟨changes⟩).get change.name = change.quality := by
  obtain ⟨before, after, hchanges⟩ := List.append_of_mem hchange
  have hwritten := Feature.effect_self hclasses (h.literal change hchange)
  have htotal : (⟨changes⟩ : Matrix).effect classes change.name = .write change.quality := by
    rw [effect, hchanges, List.map_append, List.map_cons, hwritten]
    refine Effect.total_eq_write _ fun other hother => ?_
    obtain ⟨later, hlater, rfl⟩ := List.mem_map.mp hother
    exact h.effect_on_earlier hclasses hchanges hlater
  rw [WellFormed.empty.get_transform_eq_on, htotal]
  rfl

/-- No other feature is specified. -/
theorem get_of_not_mem (h : Consistent classes changes) (hclasses : classes.Separated)
    {name : String} (hname : name ∉ changes.map (·.name)) :
    (empty.transform classes ⟨changes⟩).get name = .unset := by
  have hkeep : ∀ change ∈ changes, change.effect classes name = .keep := by
    intro change hchange
    have hne : name ≠ change.name := by
      rintro rfl
      exact hname (List.mem_map_of_mem hchange)
    rcases Feature.effect_cases hclasses (h.literal change hchange) hne with
      hkeep | ⟨-, -, major, hdependent, -⟩ | ⟨-, -, hdependent⟩ | ⟨-, -, hdependent⟩
    · exact hkeep
    · exact absurd (h.complete major name hdependent).2 hname
    · exact absurd (h.complete _ name hdependent).2 hname
    · exact absurd (h.complete name _ hdependent).1 hname
  rw [WellFormed.empty.get_transform_eq_on, effect,
    Effect.total_eq_keep (List.forall_mem_map.mpr hkeep)]
  rfl

end Consistent

end Matrix

namespace BaseTable

/-! ## The classes of a header -/

/-- A name in a header governs another one: it opens a class, and the other one stands behind it,
before the next name that opens a class. -/
def Governs (names : List String) (major dependent : String) : Prop :=
  ∃ before after, names = before ++ major :: after ∧ opensClass major = true ∧
    dependent ∈ after.takeWhile fun name => !opensClass name

/-- A name at the start of a header governs what follows up to the next name that opens a class, if
it opens one itself. -/
theorem governs_cons_iff {name : String} {rest : List String} {major dependent : String} :
    Governs (name :: rest) major dependent ↔
      (name = major ∧ opensClass name = true ∧
        dependent ∈ rest.takeWhile fun name => !opensClass name) ∨
      Governs rest major dependent := by
  constructor
  · rintro ⟨before, after, hnames, hopens, hdependent⟩
    cases before with
    | nil =>
      obtain ⟨rfl, rfl⟩ := List.cons.inj hnames
      exact Or.inl ⟨rfl, hopens, hdependent⟩
    | cons first before =>
      obtain ⟨rfl, rfl⟩ := List.cons.inj hnames
      exact Or.inr ⟨before, after, rfl, hopens, hdependent⟩
  · rintro (⟨rfl, hopens, hdependent⟩ | ⟨before, after, rfl, hopens, hdependent⟩)
    · exact ⟨[], rest, rfl, hopens, hdependent⟩
    · exact ⟨name :: before, after, rfl, hopens, hdependent⟩

/-- The members of classes that a header adds to: those that were there, those that the class before
the header takes, and those that names of the header govern. -/
theorem mem_members_classesOf_iff (opened : Option String) (classes : MajorClasses)
    (names : List String) (major dependent : String) :
    (major, dependent) ∈ (classesOf opened classes names).members ↔
      (major, dependent) ∈ classes.members ∨
      (opened = some major ∧ dependent ∈ names.takeWhile fun name => !opensClass name) ∨
      Governs names major dependent := by
  fun_induction classesOf opened classes names with
  | case1 opened classes => simp [Governs]
  | case2 opened classes name rest hopens ih =>
    refine ih.trans ?_
    rw [MajorClasses.members_addClass, governs_cons_iff, List.takeWhile_cons]
    simp [hopens]
  | case3 classes name rest hopens governor ih =>
    refine ih.trans ?_
    rw [MajorClasses.members_addDependent, governs_cons_iff, List.takeWhile_cons, List.mem_append,
      List.mem_singleton, Prod.mk.injEq]
    simp only [hopens, Option.some.injEq, Bool.not_false, if_true, List.mem_cons, false_and,
      and_false, false_or, Bool.false_eq_true]
    grind
  | case4 classes name rest hopens ih =>
    refine ih.trans ?_
    rw [governs_cons_iff]
    simp [hopens]

/-- The classes of a header are those that its names govern. -/
theorem Loaded.mem_dependents_iff {base : BaseTable} (hbase : base.Loaded)
    (major dependent : String) :
    dependent ∈ base.classes.dependents major ↔ Governs base.features major dependent := by
  rw [MajorClasses.mem_dependents_iff, hbase.classes, mem_members_classesOf_iff]
  simp [MajorClasses.empty]

/-- Both names stand in the header. -/
theorem Governs.mem {names : List String} {major dependent : String}
    (h : Governs names major dependent) : major ∈ names ∧ dependent ∈ names := by
  obtain ⟨before, after, rfl, -, hdependent⟩ := h
  have hafter : dependent ∈ after := (List.takeWhile_sublist _).subset hdependent
  exact ⟨by simp, by simp [hafter]⟩

/-- In a header with distinct names no name is governed by a later one. -/
theorem pairwise_not_governs {names : List String} (hnames : names.Nodup) :
    names.Pairwise fun earlier later => ¬ Governs names later earlier := by
  induction names with
  | nil => exact List.Pairwise.nil
  | cons name rest ih =>
    obtain ⟨hfresh, hrest⟩ := List.nodup_cons.mp hnames
    have hlater {later earlier : String} (hmem : later ∈ rest)
        (h : Governs (name :: rest) later earlier) : Governs rest later earlier := by
      rcases governs_cons_iff.mp h with ⟨rfl, -, -⟩ | h
      · exact absurd hmem hfresh
      · exact h
    rw [List.pairwise_cons]
    refine ⟨fun later hmem h => hfresh (hlater hmem h).mem.2, ?_⟩
    exact (ih hrest).imp_of_mem fun _ hmem hnot h => hnot (hlater hmem h)

/-! ## The cells of a row -/

/-- The change that a cell stands for. -/
def cellChange (cell : String × String) : Feature :=
  ⟨cell.1, (cellQuality? cell.2).getD .unset⟩

/-- A cell that writes a quality is the sign of that quality. -/
theorem eq_singleton_of_cellQuality? {cell : String} {quality : Quality}
    (h : cellQuality? cell = some quality) : cell = String.ofList [quality.symbol] := by
  unfold cellQuality? at h
  split at h
  · next symbol hcell =>
    have hsymbol := (Option.filter_eq_some_iff.mp h).1
    have heq : quality.symbol = symbol := by simpa using List.find?_some hsymbol
    rw [heq, ← hcell, String.ofList_toList]
  · cases h

/-- Reading cells makes the changes that they stand for, and each of them writes a quality. -/
theorem readCells_eq_transform {classes : MajorClasses} {line : Nat} {matrix matrix' : Matrix}
    {row : List (String × String)} (h : readCells classes line matrix row = .ok matrix') :
    (∀ cell ∈ row, cellQuality? cell.2 = some (cellChange cell).quality) ∧
      matrix' = matrix.transform classes ⟨row.map cellChange⟩ := by
  induction row generalizing matrix with
  | nil =>
    cases h
    exact ⟨fun _ hcell => absurd hcell List.not_mem_nil, rfl⟩
  | cons first rest ih =>
    rw [readCells] at h
    split at h
    · next quality hquality =>
      have hfirst : (cellChange first).quality = quality := by rw [cellChange, hquality]; rfl
      obtain ⟨hcells, rfl⟩ := ih h
      rw [List.forall_mem_cons, hfirst]
      refine ⟨⟨hquality, hcells⟩, ?_⟩
      rw [← hfirst]
      rfl
    · cases h

/-- A row is consistent with the classes of its header: a class whose major cell is `+` has no `0`
among its dependents, and a class whose major cell is not `+` has no `+` among them. -/
def RowAgrees (names marks : List String) : Prop :=
  ∀ major dependent, Governs names major dependent → ∀ mark other,
    (major, mark) ∈ names.zip marks → (dependent, other) ∈ names.zip marks →
      (mark = "+" → other ≠ "0") ∧ (mark ≠ "+" → other ≠ "+")

/-- A matrix holds what a row says: every feature of the header has the quality in its column, and
nothing is stored but the qualities that are not unset. -/
structure KeepsRow (names marks : List String) (m : Matrix) : Prop where
  quality : ∀ {name mark}, (name, mark) ∈ names.zip marks → cellQuality? mark = some (m.get name)
  entries : ∀ feature : Feature, feature ∈ m.entries ↔ feature.quality ≠ .unset ∧
    ∃ mark, (feature.name, mark) ∈ names.zip marks ∧ cellQuality? mark = some feature.quality

/-- A row that agrees with its header makes changes that do not undo one another. -/
theorem RowAgrees.consistent {base : BaseTable} (hbase : base.Loaded)
    (hnames : base.features.Nodup) {marks : List String}
    (hlength : marks.length = base.features.length)
    (hmarks : ∀ cell ∈ base.features.zip marks,
      cellQuality? cell.2 = some (cellChange cell).quality)
    (h : RowAgrees base.features marks) :
    Matrix.Consistent base.classes ((base.features.zip marks).map cellChange) := by
  have hzip : (base.features.zip marks).map (·.1) = base.features :=
    List.map_fst_zip (Nat.le_of_eq hlength.symm)
  have hchanged : ((base.features.zip marks).map cellChange).map (·.name) = base.features := by
    rw [List.map_map]
    exact hzip
  constructor
  · rwa [hchanged]
  · rw [List.forall_mem_map]
    exact fun cell hcell => isVariable_of_cellQuality? (hmarks cell hcell)
  · have hordered := pairwise_not_governs hnames
    rw [← hzip, List.pairwise_map, hzip] at hordered
    rw [List.pairwise_map]
    exact hordered.imp fun hnot hdependent => hnot ((hbase.mem_dependents_iff _ _).mp hdependent)
  · intro major dependent hdependent
    rw [hchanged]
    exact ((hbase.mem_dependents_iff _ _).mp hdependent).mem
  · intro _ hopening _ hgoverned hclass hplus hunset
    obtain ⟨⟨major, mark⟩, hmajor, rfl⟩ := List.mem_map.mp hopening
    obtain ⟨⟨dependent, other⟩, hdependent, rfl⟩ := List.mem_map.mp hgoverned
    have hgoverns := (hbase.mem_dependents_iff _ _).mp hclass
    have hmark := eq_singleton_of_cellQuality? (hplus ▸ hmarks _ hmajor)
    have hother := eq_singleton_of_cellQuality? (hunset ▸ hmarks _ hdependent)
    exact (h major dependent hgoverns mark other hmajor hdependent).1 hmark hother
  · intro _ hopening _ hgoverned hclass hplus
    obtain ⟨⟨major, mark⟩, hmajor, rfl⟩ := List.mem_map.mp hopening
    obtain ⟨⟨dependent, other⟩, hdependent, rfl⟩ := List.mem_map.mp hgoverned
    have hgoverns := (hbase.mem_dependents_iff _ _).mp hclass
    have hother := eq_singleton_of_cellQuality? (hplus ▸ hmarks _ hdependent)
    have hmark : mark = "+" := by
      by_contra hne
      exact (h major dependent hgoverns mark other hmajor hdependent).2 hne hother
    have hpresent : cellQuality? "+" = some .plus := by decide +kernel
    rw [cellChange, hmark, hpresent]
    rfl

/-- The matrix that a consistent row writes holds what the row says. -/
theorem RowAgrees.keepsRow {base : BaseTable} (hbase : base.Loaded)
    (hnames : base.features.Nodup) {marks : List String}
    (hlength : marks.length = base.features.length) (h : RowAgrees base.features marks)
    {line : Nat} {matrix : Matrix}
    (hread : readCells base.classes line .empty (base.features.zip marks) = .ok matrix) :
    KeepsRow base.features marks matrix := by
  obtain ⟨hmarks, rfl⟩ := readCells_eq_transform hread
  have hconsistent := h.consistent hbase hnames hlength hmarks
  have hclasses := hbase.separated hnames
  have hwell := Matrix.WellFormed.empty.transform base.classes
    ⟨(base.features.zip marks).map cellChange⟩
  have hquality {name mark : String} (hcell : (name, mark) ∈ base.features.zip marks) :
      cellQuality? mark = some ((Matrix.empty.transform base.classes
        ⟨(base.features.zip marks).map cellChange⟩).get name) := by
    rw [hmarks _ hcell]
    exact congrArg some
      (hconsistent.get_of_mem hclasses (List.mem_map_of_mem hcell)).symm
  refine ⟨hquality, fun feature => ?_⟩
  rw [hwell.mem_entries_iff, and_comm]
  refine and_congr_right fun hset => ⟨fun hget => ?_, ?_⟩
  · have hheader : feature.name ∈ ((base.features.zip marks).map cellChange).map (·.name) := by
      by_contra hother
      exact hset (hget ▸ hconsistent.get_of_not_mem hclasses hother)
    obtain ⟨_, hchange, hname⟩ := List.mem_map.mp hheader
    obtain ⟨⟨name, mark⟩, hcell, rfl⟩ := List.mem_map.mp hchange
    subst hname
    exact ⟨mark, hcell, (hquality hcell).trans (congrArg some hget)⟩
  · rintro ⟨mark, hcell, hmark⟩
    rw [hquality hcell] at hmark
    exact Option.some.inj hmark

/-! ## The rows of a table -/

/-- A base phone is what a row says under a header: the row has a cell for the segment and one for
each name. -/
def ReadsAs (names : List String) (classes : MajorClasses) (row : Nat × String)
    (phone : String × Matrix) : Prop :=
  ∃ marks, cells row.2 = phone.1 :: marks ∧ marks.length = names.length ∧
    readCells classes row.1 .empty (names.zip marks) = .ok phone.2

/-- Reading a row adds the base phone that it says. -/
theorem readRow_readsAs {table table' : BaseTable} {line : Nat} {row : String}
    (h : table.readRow line row = .ok table') :
    ∃ phone, ReadsAs table.features table.classes (line, row) phone ∧
      table' = { table with bases := table.bases ++ [phone] } := by
  unfold readRow at h
  dsimp only at h
  split at h
  · cases h
  · next hlength =>
    split at h
    · next hcells =>
      rw [hcells] at hlength
      simp at hlength
    · next segment marks hcells =>
      obtain ⟨matrix, hread, heq⟩ := bind_eq_ok_iff.mp h
      rw [hcells, List.length_cons, ne_eq, not_not, Nat.add_right_cancel_iff] at hlength
      cases heq
      exact ⟨(segment, matrix), ⟨marks, hcells, hlength, hread⟩, rfl⟩

/-- Reading rows one after another adds a base phone for each of them. -/
theorem readRows_readsAs {table table' : BaseTable} {rows : List (Nat × String)}
    (h : rows.foldlM (fun table (line, row) => table.readRow line row) table = .ok table') :
    ∃ added, table' = { table with bases := table.bases ++ added } ∧
      List.Forall₂ (ReadsAs table.features table.classes) rows added := by
  induction rows generalizing table with
  | nil =>
    cases h
    exact ⟨[], by rw [List.append_nil], .nil⟩
  | cons first rest ih =>
    obtain ⟨next, hrow, hrest⟩ := bind_eq_ok_iff.mp h
    obtain ⟨phone, hphone, rfl⟩ := readRow_readsAs hrow
    obtain ⟨added, rfl, hadded⟩ := ih hrest
    exact ⟨phone :: added, by simp, .cons hphone hadded⟩

/-- The features of a table are the names in its header, and its base phones are its rows one by
one. -/
theorem load_readsAs {source header first : String} {base : BaseTable} {line : Nat}
    {rows : List (Nat × String)} {names : List String} (hload : load source = .ok base)
    (hlines : numberedLines source = (line, header) :: rows)
    (hheader : cells header = first :: names) :
    base.features = names ∧ List.Forall₂ (ReadsAs names base.classes) rows base.bases := by
  rw [load, hlines] at hload
  obtain ⟨start, hstart, hrows⟩ := bind_eq_ok_iff.mp hload
  rw [readHeader, hheader] at hstart
  dsimp only at hstart
  split at hstart
  · cases hstart
    obtain ⟨added, rfl, hadded⟩ := readRows_readsAs hrows
    exact ⟨rfl, hadded⟩
  · cases hstart

/-- The loader keeps what a table says. Under a header with distinct names the base phones are the
rows one by one, each with its segment, and a row that is consistent with the classes of the header
gives a matrix in which every feature of the header has the quality in its column, and no other
feature has one. -/
theorem load_keepsRows {source header first : String} {base : BaseTable} {line : Nat}
    {rows : List (Nat × String)} {names : List String} (hload : load source = .ok base)
    (hlines : numberedLines source = (line, header) :: rows)
    (hheader : cells header = first :: names) (hnames : names.Nodup) :
    List.Forall₂ (fun row phone => ∃ marks, cells row.2 = phone.1 :: marks ∧
      marks.length = names.length ∧ (RowAgrees names marks → KeepsRow names marks phone.2))
      rows base.bases := by
  obtain ⟨rfl, hrows⟩ := load_readsAs hload hlines hheader
  refine hrows.imp ?_
  rintro row phone ⟨marks, hcells, hlength, hread⟩
  refine ⟨marks, hcells, hlength, fun hagrees => ?_⟩
  exact hagrees.keepsRow (load_loaded hload) hnames hlength hread

/-- A row with a present class, whose dependents are present and unspecified, and with a class that
is unspecified itself beside an absent dependent. -/
theorem load_keepsRows_coronal :
    let names := ["voice", "COR", "ant", "dist", "DOR", "high"]
    let marks := ["0", "+", "+", "~", "~", "-"]
    ∃ base m, load "SEGMENT\tvoice\tCOR\tant\tdist\tDOR\thigh\nt\t0\t+\t+\t~\t~\t-\n" = .ok base ∧
      base.bases = [("t", m)] ∧ names.Nodup ∧ RowAgrees names marks ∧ KeepsRow names marks m := by
  intro names marks
  let m : Matrix :=
    ⟨[⟨"COR", .plus⟩, ⟨"ant", .plus⟩, ⟨"dist", .any⟩, ⟨"DOR", .any⟩, ⟨"high", .minus⟩]⟩
  let base : BaseTable :=
    ⟨names, ⟨["COR", "DOR"], [("COR", "ant"), ("COR", "dist"), ("DOR", "high")]⟩, [("t", m)]⟩
  have hload : load "SEGMENT\tvoice\tCOR\tant\tdist\tDOR\thigh\nt\t0\t+\t+\t~\t~\t-\n" =
      .ok base := by with_unfolding_all rfl
  have hlines : numberedLines "SEGMENT\tvoice\tCOR\tant\tdist\tDOR\thigh\nt\t0\t+\t+\t~\t~\t-\n" =
      [(1, "SEGMENT\tvoice\tCOR\tant\tdist\tDOR\thigh"), (2, "t\t0\t+\t+\t~\t~\t-")] := by
    with_unfolding_all rfl
  have hheader : cells "SEGMENT\tvoice\tCOR\tant\tdist\tDOR\thigh" = "SEGMENT" :: names := by
    with_unfolding_all rfl
  have hcells : cells "t\t0\t+\t+\t~\t~\t-" = "t" :: marks := by with_unfolding_all rfl
  have hnames : names.Nodup := by decide
  have hmembers : ∀ member ∈ base.classes.members, ∀ cell ∈ names.zip marks,
      ∀ other ∈ names.zip marks, cell.1 = member.1 → other.1 = member.2 →
        (cell.2 = "+" → other.2 ≠ "0") ∧ (cell.2 ≠ "+" → other.2 ≠ "+") := by decide
  have hagrees : RowAgrees names marks := by
    intro major dependent hgoverns mark other hmark hother
    have hmember := ((load_loaded hload).mem_dependents_iff major dependent).mpr hgoverns
    rw [MajorClasses.mem_dependents_iff] at hmember
    exact hmembers _ hmember _ hmark _ hother rfl rfl
  refine ⟨base, m, hload, rfl, hnames, hagrees, ?_⟩
  cases load_keepsRows hload hlines hheader hnames with
  | cons hrow _ =>
    obtain ⟨found, hfound, -, hkeeps⟩ := hrow
    obtain ⟨-, rfl⟩ := List.cons.inj (hfound.symm.trans hcells)
    exact hkeeps hagrees

end BaseTable

end SoundLaw
